import Lifecycle.Proofs.Classification
import Lifecycle.Proofs.Hashes

/-!
# Values up to the order of keys

Two values are *rearranged* (`Json.Rearranged`) when they differ in nothing but the order in which
the keys of their objects stand, at any depth. Whole numbers are never numbers of floating point,
and numbers of floating point are compared by how they are printed.

The canonical text of a value tells the value up to this, as long as no object has a key twice
(`Json.canonical_eq_iff`). The text of a scalar tells what it is, for a word has a letter that no
number has, and a number of floating point a point or a letter, which a whole number has not
(`Json.written_scalar_cases`); the parts of a list or an object are told by `Json.joined_injective`
and `Json.sortedFields_eq`.

So a content hash tells the content of a document unless two contents share a digest, and a
document whose keys are put in another order is never shown as changed
(`content_hash_identifies`).
-/

namespace Lifecycle

namespace Json

/-! ### The text of a scalar -/

/-- A number of floating point is not written with digits and a sign alone. -/
theorem exists_mem_writtenFloat (x : Binary64) :
    ∃ c ∈ writtenFloat x, c ≠ '-' ∧ c.isDigit = false := by
  cases x with
  | undefined => exact ⟨'N', List.mem_cons_self, by decide⟩
  | infinite negative => exact ⟨'I', by cases negative <;> decide, by decide⟩
  | finite negative m e =>
    have hpositional : ∀ digits point, '.' ∈ Shortest.positional digits point := by
      intro digits point
      unfold Shortest.positional
      split_ifs
      · simp
      · dsimp only
        split_ifs <;> simp
    have hscientific : ∀ layout digits point, 'e' ∈ Shortest.scientific layout digits point := by
      intro layout digits point
      simp [Shortest.scientific]
    have hwrite : ∃ c ∈ Shortest.standard.write (.finite negative m e), c = '.' ∨ c = 'e' := by
      rw [Shortest.Layout.write]
      generalize Shortest.decimal m e = decimal
      by_cases hplain : Shortest.standard.above < decimal.2 && decimal.2 ≤ Shortest.standard.upTo
      · refine ⟨'.', List.mem_append_right _ ?_, .inl rfl⟩
        rw [if_pos hplain]
        exact hpositional _ _
      · refine ⟨'e', List.mem_append_right _ ?_, .inr rfl⟩
        rw [if_neg hplain]
        exact hscientific _ _ _
    obtain ⟨c, hmem, rfl | rfl⟩ := hwrite
    · exact ⟨'.', hmem, by decide⟩
    · exact ⟨'e', hmem, by decide⟩

theorem toString_int_ne_writtenFloat (n : Int) (x : Binary64) :
    (toString n).toList ≠ writtenFloat x := by
  intro h
  obtain ⟨c, hmem, hsign, hdigit⟩ := exists_mem_writtenFloat x
  rcases mem_toString_int (h ▸ hmem) with rfl | hdigit'
  · exact hsign rfl
  · rw [hdigit] at hdigit'
    cases hdigit'

theorem toDigits_injective {n m : Nat} (h : Nat.toDigits 10 n = Nat.toDigits 10 m) : n = m := by
  rw [← @Nat.ofDigitChars_ten_toDigits n, h, Nat.ofDigitChars_ten_toDigits]

theorem toString_int_injective {n m : Int} (h : (toString n).toList = (toString m).toList) :
    n = m := by
  have hsign : ∀ k : Nat, '-' ∉ Nat.toDigits 10 k := fun k hmem =>
    absurd (isDigit_of_mem_toDigits hmem) (by decide)
  rw [toList_toString_int, toList_toString_int] at h
  by_cases hn : n < 0
  · by_cases hm : m < 0
    · rw [if_pos hn, if_pos hm] at h
      have habs := toDigits_injective (List.append_cancel_left h)
      omega
    · rw [if_pos hn, if_neg hm, List.nil_append] at h
      exact absurd (h ▸ List.mem_append_left _ List.mem_cons_self) (hsign m.natAbs)
  · by_cases hm : m < 0
    · rw [if_neg hn, if_pos hm, List.nil_append] at h
      exact absurd (h ▸ List.mem_append_left _ List.mem_cons_self) (hsign n.natAbs)
    · rw [if_neg hn, if_neg hm] at h
      have habs := toDigits_injective h
      omega

/-- The text of a word: null, or a truth value. -/
def word : Option Bool → List Char
  | none => "null".toList
  | some b => if b then "true".toList else "false".toList

/-- No word is written with the characters of numbers alone. -/
theorem word_ne {cs : List Char} (h : cs ⊆ numberChars) (w : Option Bool) : word w ≠ cs := by
  have hword : ∀ w, ¬word w ⊆ numberChars
    | none => by decide
    | some false => by decide
    | some true => by decide
  rintro rfl
  exact hword w h

theorem word_injective : ∀ b c, word b = word c → b = c
  | none, none => by decide
  | none, some false => by decide
  | none, some true => by decide
  | some false, c => by cases c <;> decide +revert
  | some true, c => by cases c <;> decide +revert

/-- Scalars with one text are the same, or numbers of floating point with one printed form. -/
theorem written_scalar_cases {a b : Json} (ha : a.IsScalar) (hb : b.IsScalar) {style : Style}
    (h : written style a = written style b) :
    a = b ∨ ∃ x y, a = .float x ∧ b = .float y ∧ writtenFloat x = writtenFloat y := by
  cases a with
  | null =>
    cases b with
    | null => exact .inl rfl
    | bool v => exact absurd (word_injective none (some v) h) nofun
    | int m => exact absurd h (word_ne (toString_int_subset m) none)
    | float y => exact absurd h (word_ne (writtenFloat_subset y) none)
    | _ => exact absurd hb id
  | bool w =>
    cases b with
    | null => exact absurd (word_injective (some w) none h) nofun
    | bool v => exact .inl (congrArg bool (Option.some.inj (word_injective (some w) (some v) h)))
    | int m => exact absurd h (word_ne (toString_int_subset m) (some w))
    | float y => exact absurd h (word_ne (writtenFloat_subset y) (some w))
    | _ => exact absurd hb id
  | int n =>
    cases b with
    | null => exact absurd h.symm (word_ne (toString_int_subset n) none)
    | bool v => exact absurd h.symm (word_ne (toString_int_subset n) (some v))
    | int m => exact .inl (congrArg int (toString_int_injective h))
    | float y => exact absurd h (toString_int_ne_writtenFloat n y)
    | _ => exact absurd hb id
  | float x =>
    cases b with
    | null => exact absurd h.symm (word_ne (writtenFloat_subset x) none)
    | bool v => exact absurd h.symm (word_ne (writtenFloat_subset x) (some v))
    | int m => exact absurd h.symm (toString_int_ne_writtenFloat m x)
    | float y => exact .inr ⟨x, y, rfl, rfl, h⟩
    | _ => exact absurd hb id
  | _ => exact absurd ha id

/-! ### Values up to the order of keys -/

/-- No object of a value has a key twice. -/
inductive DistinctKeys : Json → Prop where
  | scalar {value : Json} (h : value.IsScalar) : DistinctKeys value
  | text (s : String) : DistinctKeys (.text s)
  | list {items : List Json} (h : ∀ item ∈ items, DistinctKeys item) : DistinctKeys (.list items)
  | object {fields : Table Json} (keys : fields.Distinct)
    (values : ∀ field ∈ fields, DistinctKeys field.2) : DistinctKeys (.object fields)

theorem DistinctKeys.of_list {items : List Json} (h : (Json.list items).DistinctKeys) :
    ∀ item ∈ items, item.DistinctKeys := by
  cases h with
  | scalar h => exact absurd h id
  | list h => exact h

theorem DistinctKeys.of_object {fields : Table Json} (h : (Json.object fields).DistinctKeys) :
    fields.Distinct ∧ ∀ field ∈ fields, field.2.DistinctKeys := by
  cases h with
  | scalar h => exact absurd h id
  | object keys values => exact ⟨keys, values⟩

/-- Two values are the same but for the order in which the keys of objects stand: lists have the
same items at the same places, objects have the same keys with the same values under them. -/
inductive Rearranged : Json → Json → Prop where
  | null : Rearranged .null .null
  | bool (b : Bool) : Rearranged (.bool b) (.bool b)
  | int (n : Int) : Rearranged (.int n) (.int n)
  | float {x y : Binary64} (printed : writtenFloat x = writtenFloat y) :
    Rearranged (.float x) (.float y)
  | text (s : String) : Rearranged (.text s) (.text s)
  | list {a b : List Json} (length : a.length = b.length)
    (items : ∀ pair ∈ a.zip b, Rearranged pair.1 pair.2) : Rearranged (.list a) (.list b)
  | object {a b : Table Json} (keys : ∀ key, key ∈ a.keys ↔ key ∈ b.keys)
    (values : ∀ key value other, a.get? key = some value → b.get? key = some other →
      Rearranged value other) : Rearranged (.object a) (.object b)

theorem Rearranged.of_isScalar {value : Json} (h : value.IsScalar) : Rearranged value value := by
  cases value with
  | null => exact .null
  | bool b => exact .bool b
  | int n => exact .int n
  | float x => exact .float rfl
  | _ => exact absurd h id

/-- Objects are rearranged if each field of the one has a counterpart under the same key of the
other, which has no more keys. -/
theorem Rearranged.of_fields {a b : Table Json} (hb : b.Distinct)
    (hfields : ∀ field ∈ a, ∃ other, (field.1, other) ∈ b ∧ Rearranged field.2 other)
    (hkeys : ∀ key ∈ b.keys, key ∈ a.keys) : Rearranged (.object a) (.object b) := by
  refine .object (fun key => ⟨fun hkey => ?_, hkeys key⟩) fun key value other hvalue hother => ?_
  · obtain ⟨field, hfield, rfl⟩ := List.mem_map.mp hkey
    obtain ⟨other, hother, -⟩ := hfields field hfield
    exact Table.mem_keys_of_mem hother
  · obtain ⟨found, hfound, hsame⟩ := hfields _ (Table.mem_of_get? hvalue)
    have hget := (hb.get?_eq_some_iff key found).mpr hfound
    rw [hget] at hother
    exact Option.some.inj hother ▸ hsame

theorem isScalar_of_canonical {a b : Json} (ha : a.IsScalar) (h : canonical a = canonical b) :
    b.IsScalar := by
  have hfirst : ∀ {c rest}, canonical b = c :: rest → c ∉ scalarChars → False :=
    fun hb hc => not_isScalar_of_canonical (h.trans hb) hc ha
  cases b with
  | text s => exact hfirst rfl (by decide)
  | list items => exact hfirst (canonical_list items) (by decide)
  | object fields => exact hfirst (canonical_object fields) (by decide)
  | _ => trivial

/-- Values with the same canonical text are the same but for the order of keys. -/
theorem rearranged_of_canonical {a b : Json} (h : canonical a = canonical b) :
    Rearranged a b := by
  induction a using induct generalizing b with
  | scalar value hvalue =>
    rcases written_scalar_cases hvalue (isScalar_of_canonical hvalue h) h with
      rfl | ⟨x, y, rfl, rfl, hprinted⟩
    · exact .of_isScalar hvalue
    · exact .float hprinted
  | text s =>
    rw [eq_text_of_canonical h.symm]
    exact .text s
  | list items ih =>
    cases b with
    | list others =>
      have htexts := map_canonical_of_canonical h
      have hlength : items.length = others.length := by simpa using congrArg List.length htexts
      refine .list hlength fun pair hpair => ?_
      obtain ⟨i, hzip, rfl⟩ := List.getElem_of_mem hpair
      have hi : i < items.length := by
        rw [List.length_zip] at hzip
        omega
      have hi' : i < others.length := hlength ▸ hi
      have hmapped : i < (items.map canonical).length := by simpa using hi
      have hitem : canonical items[i] = canonical others[i] := by
        simpa only [List.getElem_map] using List.getElem_of_eq htexts hmapped
      rw [List.getElem_zip]
      exact ih _ (List.getElem_mem _) hitem
    | text s =>
      rw [canonical_list] at h
      exact absurd (List.cons.inj h).1 (by decide)
    | object fields =>
      rw [canonical_list, canonical_object] at h
      exact absurd (List.cons.inj h).1 (by decide)
    | _ =>
      have hscalar := not_isScalar_of_canonical (h.symm.trans (canonical_list items)) (by decide)
      exact absurd trivial hscalar
  | object fields ih =>
    cases b with
    | object others =>
      have hget := canonical_get? h
      refine .object (fun key => ?_) fun key value other hvalue hother => ?_
      · have hsome := congrArg Option.isSome (hget key)
        rw [Option.isSome_map, Option.isSome_map] at hsome
        rw [← Table.has_eq_true_iff, ← Table.has_eq_true_iff, Table.has, Table.has, hsome]
      · have hsame := hget key
        rw [hvalue, hother] at hsame
        exact ih _ (Table.mem_of_get? hvalue) (Option.some.inj hsame)
    | text s =>
      rw [canonical_object] at h
      exact absurd (List.cons.inj h).1 (by decide)
    | list items =>
      rw [canonical_object, canonical_list] at h
      exact absurd (List.cons.inj h).1 (by decide)
    | _ =>
      have hscalar := not_isScalar_of_canonical (h.symm.trans (canonical_object fields)) (by decide)
      exact absurd trivial hscalar

/-! ### Objects whose keys stand in another order -/

theorem distinct_sortedFields {fields : Table Json} (h : fields.Distinct) :
    (sortedFields fields).Distinct := by
  have hperm : (sortedFields fields).Perm
      (fields.map fun field => (field.1, canonicalField field.1 field.2)) :=
    List.mergeSort_perm _ _
  rw [Table.Distinct, Table.keys, (hperm.map Prod.fst).nodup_iff, List.map_map]
  exact h

/-- Objects that have under each key values with the same canonical text have the same one, in
whatever order the keys stand. -/
theorem canonical_object_congr {a b : Table Json} (ha : a.Distinct) (hb : b.Distinct)
    (h : ∀ key, (a.get? key).map canonical = (b.get? key).map canonical) :
    canonical (.object a) = canonical (.object b) := by
  have hget : ∀ key, (sortedFields a).get? key = (sortedFields b).get? key := by
    intro key
    have hfield : ∀ value : Option Json, value.map (canonicalField key) =
        (value.map canonical).map fun text => writtenText key.toList ++ ':' :: text := by
      intro value
      rw [Option.map_map]
      rfl
    rw [get?_sortedFields, get?_sortedFields, hfield, hfield, h key]
  have hmem : ∀ entry, entry ∈ sortedFields a ↔ entry ∈ sortedFields b := by
    intro entry
    rw [← (distinct_sortedFields ha).get?_eq_some_iff, hget,
      (distinct_sortedFields hb).get?_eq_some_iff]
  have hsorted : ∀ fields : Table Json, (sortedFields fields).Pairwise
      fun entry other => decide (entry.1 ≤ other.1) = true := fun fields =>
    List.pairwise_mergeSort keyOrder_trans keyOrder_total _
  have hnodup := (distinct_sortedFields ha).of_map
  have hperm : (sortedFields a).Perm (sortedFields b) :=
    (List.perm_ext_iff_of_nodup hnodup (distinct_sortedFields hb).of_map).mpr hmem
  have hfields : sortedFields a = sortedFields b := by
    refine hperm.eq_of_pairwise ?_ (hsorted a) (hsorted b)
    intro entry other hentry hother hle hle'
    have hkey : entry.1 = other.1 :=
      String.le_antisymm (of_decide_eq_true hle) (of_decide_eq_true hle')
    exact List.inj_on_of_nodup_map (distinct_sortedFields ha) hentry (hperm.symm.subset hother) hkey
  rw [canonical_object, canonical_object, hfields]

/-- Values that are the same but for the order of keys have the same canonical text. -/
theorem Rearranged.canonical_eq {a b : Json} (h : Rearranged a b) (ha : a.DistinctKeys)
    (hb : b.DistinctKeys) : canonical a = canonical b := by
  induction h with
  | null | bool | int | text => rfl
  | float printed => exact printed
  | @list a b length items ih =>
    rw [canonical_list, canonical_list]
    suffices h : a.map canonical = b.map canonical by rw [h]
    apply List.ext_getElem (by simpa using length)
    intro i hi hi'
    rw [List.length_map] at hi hi'
    have hpair : (a[i], b[i]) ∈ a.zip b := by
      have hzip : i < (a.zip b).length := by simpa using ⟨hi, hi'⟩
      rw [← List.getElem_zip (h := hzip)]
      exact List.getElem_mem _
    rw [List.getElem_map, List.getElem_map]
    exact ih _ hpair (ha.of_list _ (List.getElem_mem _)) (hb.of_list _ (List.getElem_mem _))
  | @object a b keys values ih =>
    obtain ⟨hdistinct, hvalues⟩ := ha.of_object
    obtain ⟨hdistinct', hvalues'⟩ := hb.of_object
    refine canonical_object_congr hdistinct hdistinct' fun key => ?_
    cases hvalue : Table.get? a key with
    | none =>
      have hnone : Table.get? b key = none := by
        rw [Table.get?_eq_none_iff, ← keys, ← Table.get?_eq_none_iff, hvalue]
      rw [hnone]
    | some value =>
      cases hother : Table.get? b key with
      | none =>
        rw [Table.get?_eq_none_iff, ← keys, ← Table.get?_eq_none_iff, hvalue] at hother
        cases hother
      | some other =>
        exact congrArg some (ih key value other hvalue hother (hvalues _ (Table.mem_of_get? hvalue))
          (hvalues' _ (Table.mem_of_get? hother)))

/-- The canonical text of a value tells the value, but for the order of keys. -/
theorem canonical_eq_iff {a b : Json} (ha : a.DistinctKeys) (hb : b.DistinctKeys) :
    canonical a = canonical b ↔ Rearranged a b :=
  ⟨rearranged_of_canonical, fun h => h.canonical_eq ha hb⟩

end Json

/-! ### Content hashes -/

/-- Two different texts with one digest. -/
def Sha256.Collide (x y : List UInt8) : Prop := x ≠ y ∧ hexDigest x = hexDigest y

namespace Content

variable {a b : Table Json} {excluded : List String}

/-- Two documents say the same: without the keys that do not count as content they are the same but
for the order of keys. -/
def SameContent (excluded : List String) (a b : Table Json) : Prop :=
  Json.Rearranged (.object (substance a excluded)) (.object (substance b excluded))

theorem distinctKeys_substance (h : (Json.object a).DistinctKeys) (excluded : List String) :
    (Json.object (substance a excluded)).DistinctKeys := by
  obtain ⟨hkeys, hvalues⟩ := h.of_object
  exact .object (hkeys.filter _) fun field hfield => hvalues field (List.mem_filter.mp hfield).1

/-- The text that is hashed tells the content of a document. -/
theorem canonicalText_eq_iff (ha : (Json.object a).DistinctKeys)
    (hb : (Json.object b).DistinctKeys) :
    canonicalText a excluded = canonicalText b excluded ↔ SameContent excluded a b :=
  Json.canonical_eq_iff (distinctKeys_substance ha excluded) (distinctKeys_substance hb excluded)

/-- Documents have the same hash exactly if they say the same, or their texts collide. -/
theorem hash_eq_iff (ha : (Json.object a).DistinctKeys) (hb : (Json.object b).DistinctKeys) :
    hash a excluded = hash b excluded ↔ SameContent excluded a b ∨
      Sha256.Collide (asciiOctets (canonicalText a excluded))
        (asciiOctets (canonicalText b excluded)) := by
  have hoctets : asciiOctets (canonicalText a excluded) = asciiOctets (canonicalText b excluded) ↔
      SameContent excluded a b := by
    rw [← canonicalText_eq_iff ha hb]
    exact ⟨asciiOctets_injective (Json.ascii_canonical _) (Json.ascii_canonical _),
      congrArg asciiOctets⟩
  rw [hash, hash, String.ofList_inj, Sha256.Collide, ← hoctets]
  constructor
  · intro hdigest
    exact (em _).imp_right fun hne => ⟨hne, hdigest⟩
  · rintro (hsame | ⟨-, hdigest⟩)
    · rw [hsame]
    · exact hdigest

end Content

/-! ### What is never shown as changed -/

namespace Ledger

variable {deployment : Deployment} {world : World} {type : EntityType} {space target : Space}
  {id : String}

/-- An id whose last hashes are the same in both spaces is not reported. -/
theorem not_mem_of_lastHash? (h : deployment.Standard) (hworld : world.Probed)
    (hsame : world.memory.lastHash? type space id = world.memory.lastHash? type target id)
    {changes : List Change}
    (hrun : ((entityChanges type space target).runOn deployment world).1 = .ok changes) :
    id ∉ Change.ids changes := by
  have hyields := (performs_entityChanges h hworld type space target).yields.of_ok hrun
  cases hsource : hashesOf world.memory type space with
  | error fault =>
    rw [hsource] at hyields
    cases hyields
  | ok source =>
    cases hsuccessor : hashesOf world.memory type target with
    | error fault =>
      rw [hsource, hsuccessor] at hyields
      cases hyields
    | ok successor =>
      rw [hsource, hsuccessor] at hyields
      obtain ⟨hdistinct, -, hget⟩ := of_hashesOf hsource
      obtain ⟨hdistinct', -, hget'⟩ := of_hashesOf hsuccessor
      intro hmem
      obtain ⟨change, hchange, rfl⟩ := List.mem_map.mp hmem
      rw [← Except.ok.inj hyields, Change.mem_between hdistinct hdistinct', hget, hget', hsame,
        (Change.operationFor_eq_none_iff _ _).mpr rfl] at hchange
      cases hchange

end Ledger

/-- What the content hash says of two documents. Their texts are the same exactly if they say the
same, and so are their hashes unless the texts collide. So entities whose last documents say the
same are never reported, and no more are policies that say the same. -/
theorem content_hash_identifies {a b : Table Json} (ha : (Json.object a).DistinctKeys)
    (hb : (Json.object b).DistinctKeys) :
    (∀ excluded,
      (Content.canonicalText a excluded = Content.canonicalText b excluded ↔
        Content.SameContent excluded a b) ∧
      (Content.hash a excluded = Content.hash b excluded ↔ Content.SameContent excluded a b ∨
        Sha256.Collide (Content.asciiOctets (Content.canonicalText a excluded))
          (Content.asciiOctets (Content.canonicalText b excluded)))) ∧
    (Content.SameContent [] a b → ∀ (deployment : Deployment) (world : World) (type : EntityType)
      (space target : Space) (id : String) (last other : Query.Entry) (changes : List Change),
      deployment.Standard → world.Probed →
      (world.memory.shownAs type space id).getLast? = some last →
      (world.memory.shownAs type target id).getLast? = some other →
      Content.documentFields last.2 = .ok a → Content.documentFields other.2 = .ok b →
      ((Ledger.entityChanges type space target).runOn deployment world).1 = .ok changes →
        id ∉ Change.ids changes) ∧
    (Content.SameContent ["id"] a b → ∀ source successor : PolicyRecord,
      source.document.fields = a → successor.document.fields = b →
        Ledger.policyChange source (some successor) = []) := by
  refine ⟨fun excluded => ⟨Content.canonicalText_eq_iff ha hb, Content.hash_eq_iff ha hb⟩, ?_, ?_⟩
  · intro hsame deployment world type space target id last other changes h hworld hlast hother
      hfields hfields' hrun
    refine Ledger.not_mem_of_lastHash? h hworld ?_ hrun
    have hhash := (Content.hash_eq_iff ha hb).mpr (.inl hsame)
    rw [Memory.lastHash?, Memory.lastHash?, hlast, hother, Option.bind_some, Option.bind_some,
      Content.ledgerHash, Content.ledgerHash, hfields, hfields']
    exact congrArg some hhash
  · rintro hsame source successor rfl rfl
    have hhash := (Content.hash_eq_iff ha hb).mpr (.inl hsame)
    rw [Ledger.policyChange, Policy.contentHash, Policy.contentHash, hhash, beq_self_eq_true,
      if_pos rfl]

/-- The fields of a rule: a name, and an object with a level and a weight. -/
def ruleFields (level : Json) (weight : Binary64) : Table Json :=
  [("id", .text "r"), ("check", .object [("level", level), ("weight", .float weight)])]

/-- The same fields with the keys in another order, and a time stamp. -/
def ruleCopy (level : Json) (weight : Binary64) : Table Json :=
  [("check", .object [("weight", .float weight), ("level", level)]), ("modified", .text "today"),
   ("id", .text "r")]

theorem distinctKeys_ruleFields (level : Json) (h : level.IsScalar) (weight : Binary64) :
    (Json.object (ruleFields level weight)).DistinctKeys ∧
      (Json.object (ruleCopy level weight)).DistinctKeys := by
  have hweight : (Json.float weight).DistinctKeys := .scalar trivial
  have hcheck : (Json.object [("level", level), ("weight", .float weight)]).DistinctKeys :=
    .object (by simp [Table.Distinct, Table.keys]) (by simp [Json.DistinctKeys.scalar h, hweight])
  have hcopy : (Json.object [("weight", .float weight), ("level", level)]).DistinctKeys :=
    .object (by simp [Table.Distinct, Table.keys]) (by simp [Json.DistinctKeys.scalar h, hweight])
  constructor
  · exact .object (by simp [Table.Distinct, Table.keys, ruleFields])
      (by simp [ruleFields, Json.DistinctKeys.text, hcheck])
  · exact .object (by simp [Table.Distinct, Table.keys, ruleCopy])
      (by simp [ruleCopy, Json.DistinctKeys.text, hcopy])

/-- The two copies have the same hash; they do not if the level is a number of floating point in
one of them. -/
theorem content_hash_identifies_ruleCopy :
    Content.hash (ruleFields (.int 1) (.finite false 1 0)) [] =
        Content.hash (ruleCopy (.int 1) (.finite false 1 0)) [] ∧
      Content.canonicalText (ruleFields (.int 1) (.finite false 1 0)) [] ≠
        Content.canonicalText (ruleCopy (.float (.finite false 1 0)) (.finite false 1 0)) [] := by
  have hwhole := distinctKeys_ruleFields (.int 1) trivial (.finite false 1 0)
  have hfloat := distinctKeys_ruleFields (.float (.finite false 1 0)) trivial (.finite false 1 0)
  constructor
  · refine (((content_hash_identifies hwhole.1 hwhole.2).1 []).2).mpr (.inl ?_)
    have hcheck : Json.Rearranged
        (.object [("level", .int 1), ("weight", .float (.finite false 1 0))])
        (.object [("weight", .float (.finite false 1 0)), ("level", .int 1)]) :=
      .of_fields (by decide) (by simp [Json.Rearranged.int, Json.Rearranged.float]) (by decide)
    exact .of_fields (by decide) (by
      simp [Content.substance, ruleFields, ruleCopy, Table.without, Content.volatileKeys, hcheck,
        Json.Rearranged.text]) (by decide)
  · intro htext
    have hsame := (((content_hash_identifies hwhole.1 hfloat.2).1 []).1).mp htext
    cases hsame with
    | object _ values =>
      have hcheck := values "check" _ _ rfl rfl
      cases hcheck with
      | object _ values => cases values "level" _ _ rfl rfl

end Lifecycle
