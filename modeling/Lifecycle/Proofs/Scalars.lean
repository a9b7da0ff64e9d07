import Mathlib.Data.List.Basic
import Lifecycle.Json.Writer

/-!
# How numbers and words are written

Numbers, truth values and null are written with digits, signs, points and letters only
(`Json.written_scalar_subset`), so that none of the characters that separate or enclose values
stands among them, and at least one character is written (`Json.written_scalar_ne_nil`).
-/

namespace Lifecycle

namespace Json

/-! ### Induction on values -/

/-- The values that have no parts and no quotes. -/
def IsScalar : Json → Prop
  | .null | .bool _ | .int _ | .float _ => True
  | .text _ | .list _ | .object _ => False

/-- What holds of scalars and texts, and of lists and objects if it holds of their parts, holds of
all values. -/
@[elab_as_elim]
theorem induct {P : Json → Prop} (scalar : ∀ value, IsScalar value → P value)
    (text : ∀ s, P (.text s)) (list : ∀ items, (∀ item ∈ items, P item) → P (.list items))
    (object : ∀ fields, (∀ field ∈ fields, P field.2) → P (.object fields)) (value : Json) :
    P value := by
  refine @Json.rec P (fun items => ∀ item ∈ items, P item)
    (fun fields => ∀ field ∈ fields, P field.2) (fun field => P field.2) (scalar .null trivial)
    (fun b => scalar (.bool b) trivial) (fun n => scalar (.int n) trivial)
    (fun x => scalar (.float x) trivial) text list object ?_ ?_ ?_ ?_ (fun _ _ h => h) value
  · exact fun _ h => absurd h List.not_mem_nil
  · intro item rest hitem hrest other hother
    rcases List.mem_cons.mp hother with rfl | hother
    · exact hitem
    · exact hrest other hother
  · exact fun _ h => absurd h List.not_mem_nil
  · intro field rest hfield hrest other hother
    rcases List.mem_cons.mp hother with rfl | hother
    · exact hfield
    · exact hrest other hother

/-! ### Scalars -/

/-- The characters that numbers are written with. -/
def numberChars : List Char :=
  ['0', '1', '2', '3', '4', '5', '6', '7', '8', '9', '+', '-', '.', 'e', 'N', 'a', 'I', 'n', 'f',
   'i', 't', 'y']

/-- The characters that numbers and words are written with. -/
def scalarChars : List Char :=
  ['0', '1', '2', '3', '4', '5', '6', '7', '8', '9', '+', '-', '.', 'e', 'N', 'a', 'I', 'n', 'f',
   'i', 't', 'y', 'u', 'l', 'r', 's']

theorem numberChars_subset : numberChars ⊆ scalarChars := by decide

theorem digit_mem_numberChars {c : Char} (h : c.isDigit = true) : c ∈ numberChars := by
  have hall : ∀ n < 58, 48 ≤ n → Char.ofNat n ∈ numberChars := by decide
  simp only [Char.isDigit, Bool.and_eq_true, decide_eq_true_eq] at h
  have hlow : 48 ≤ c.toNat := h.1
  have hhigh : c.toNat ≤ 57 := h.2
  have hmem := hall c.toNat (by omega) hlow
  rwa [Char.ofNat_toNat] at hmem

theorem isDigit_of_mem_toDigits {n : Nat} {c : Char} (h : c ∈ Nat.toDigits 10 n) :
    c.isDigit = true :=
  Nat.isDigit_of_mem_toDigits (by decide) (by decide) h

theorem toDigits_subset (n : Nat) : Nat.toDigits 10 n ⊆ numberChars :=
  fun _ h => digit_mem_numberChars (isDigit_of_mem_toDigits h)

theorem toList_toString_int (n : Int) :
    (toString n).toList = (if n < 0 then ['-'] else []) ++ Nat.toDigits 10 n.natAbs := by
  rw [Int.toString_eq_repr, Int.repr_eq_if]
  by_cases hn : 0 ≤ n
  · rw [if_pos hn, if_neg (by omega), Nat.repr_eq_ofList_toDigits, String.toList_ofList,
      List.nil_append, show n.toNat = n.natAbs by omega]
  · rw [if_neg hn, if_pos (by omega), Nat.repr_eq_ofList_toDigits, String.toList_append,
      show (-n).toNat = n.natAbs by omega]
    exact congrArg ('-' :: ·) String.toList_ofList

/-- A whole number is written with digits and perhaps a sign. -/
theorem mem_toString_int {n : Int} {c : Char} (h : c ∈ (toString n).toList) :
    c = '-' ∨ c.isDigit = true := by
  rw [toList_toString_int, List.mem_append] at h
  rcases h with hsign | hdigits
  · split_ifs at hsign
    · exact .inl (List.mem_singleton.mp hsign)
    · cases hsign
  · exact .inr (isDigit_of_mem_toDigits hdigits)

theorem toString_int_subset (n : Int) : (toString n).toList ⊆ numberChars := by
  intro c hc
  rcases mem_toString_int hc with rfl | hdigit
  · decide
  · exact digit_mem_numberChars hdigit

end Json

namespace Shortest

open Json (numberChars toDigits_subset)

theorem significantDigits_subset (a : Nat) : significantDigits a ⊆ numberChars := by
  unfold significantDigits
  cases hdigits : ((Nat.toDigits 10 a).reverse.dropWhile (· == '0')).reverse with
  | nil => decide
  | cons digit rest =>
    intro c hc
    have hmem : c ∈ ((Nat.toDigits 10 a).reverse.dropWhile (· == '0')).reverse := hdigits ▸ hc
    have hkept := (List.dropWhile_sublist _).mem (List.mem_reverse.mp hmem)
    exact toDigits_subset a (List.mem_reverse.mp hkept)

theorem decimal_subset (m : Nat) (e : Int) : (decimal m e).1 ⊆ numberChars := by
  unfold decimal
  split_ifs
  · decide
  · exact significantDigits_subset _

theorem replicate_subset (n : Nat) : List.replicate n '0' ⊆ numberChars := by
  intro c hc
  rw [List.eq_of_mem_replicate hc]
  decide

theorem positional_subset {digits : List Char} (h : digits ⊆ numberChars) (point : Int) :
    positional digits point ⊆ numberChars := by
  have hzero : '0' ∈ numberChars := by decide
  have hdot : '.' ∈ numberChars := by decide
  unfold positional
  split_ifs
  · exact List.cons_subset.mpr ⟨hzero, List.cons_subset.mpr ⟨hdot,
      List.append_subset.mpr ⟨replicate_subset _, h⟩⟩⟩
  · dsimp only
    split_ifs
    · refine List.append_subset.mpr ⟨List.append_subset.mpr ⟨h, replicate_subset _⟩, ?_⟩
      exact List.cons_subset.mpr ⟨hdot, List.cons_subset.mpr ⟨hzero, List.nil_subset _⟩⟩
    · refine List.append_subset.mpr ⟨fun c hc => h (List.mem_of_mem_take hc), ?_⟩
      exact List.cons_subset.mpr ⟨hdot, fun c hc => h (List.mem_of_mem_drop hc)⟩

theorem scientific_subset {digits : List Char} (h : digits ⊆ numberChars) (layout : Layout)
    (point : Int) : scientific layout digits point ⊆ numberChars := by
  have hdot : '.' ∈ numberChars := by decide
  have hmark : ∀ negative : Prop, ∀ _ : Decidable negative,
      (if negative then '-' else '+') ∈ numberChars := by
    intro negative _
    split_ifs <;> decide
  have hexponent : padLeft layout.exponentDigits (Nat.toDigits 10 (point - 1).natAbs) ⊆
      numberChars :=
    List.append_subset.mpr ⟨replicate_subset _, toDigits_subset _⟩
  unfold scientific
  refine List.append_subset.mpr ⟨List.append_subset.mpr
    ⟨fun c hc => h (List.mem_of_mem_take hc), ?_⟩, ?_⟩
  · split_ifs
    · exact List.nil_subset _
    · exact List.cons_subset.mpr ⟨hdot, fun c hc => h (List.mem_of_mem_drop hc)⟩
  · exact List.cons_subset.mpr ⟨by decide, List.cons_subset.mpr ⟨hmark _ _, hexponent⟩⟩

end Shortest

namespace Json

theorem writtenFloat_subset (x : Binary64) : writtenFloat x ⊆ numberChars := by
  have hsign : ∀ negative : Bool, (if negative then ['-'] else []) ⊆ numberChars := by decide
  cases x with
  | undefined => decide
  | infinite negative => exact List.append_subset.mpr ⟨hsign negative, by decide⟩
  | finite negative m e =>
    have hdigits := Shortest.decimal_subset m e
    show Shortest.standard.write (.finite negative m e) ⊆ numberChars
    rw [Shortest.Layout.write]
    refine List.append_subset.mpr ⟨hsign negative, ?_⟩
    split_ifs
    · exact Shortest.positional_subset hdigits _
    · exact Shortest.scientific_subset hdigits _ _

theorem written_scalar_subset {value : Json} (h : value.IsScalar) (style : Style) :
    written style value ⊆ scalarChars := by
  cases value with
  | null => exact (by decide : "null".toList ⊆ scalarChars)
  | bool b =>
    cases b with
    | false => exact (by decide : "false".toList ⊆ scalarChars)
    | true => exact (by decide : "true".toList ⊆ scalarChars)
  | int n => exact List.Subset.trans (toString_int_subset n) numberChars_subset
  | float x => exact List.Subset.trans (writtenFloat_subset x) numberChars_subset
  | _ => exact absurd h id

theorem writtenFloat_ne_nil (x : Binary64) : writtenFloat x ≠ [] := by
  cases x with
  | undefined => decide
  | infinite negative => cases negative <;> decide
  | finite negative m e =>
    show Shortest.standard.write (.finite negative m e) ≠ []
    have hpositional : ∀ digits point, Shortest.positional digits point ≠ [] := by
      intro digits point
      unfold Shortest.positional
      split_ifs
      · exact List.cons_ne_nil _ _
      · dsimp only
        split_ifs <;> simp
    rw [Shortest.Layout.write]
    refine List.append_ne_nil_of_right_ne_nil _ ?_
    split_ifs
    · exact hpositional _ _
    · simp [Shortest.scientific]

theorem written_scalar_ne_nil {value : Json} (h : value.IsScalar) (style : Style) :
    written style value ≠ [] := by
  cases value with
  | null => exact (by decide : "null".toList ≠ [])
  | bool b =>
    cases b with
    | false => exact (by decide : "false".toList ≠ [])
    | true => exact (by decide : "true".toList ≠ [])
  | int n =>
    show (toString n).toList ≠ []
    rw [Int.toString_eq_repr, Int.repr_eq_if]
    split_ifs <;> simp [Nat.repr_eq_ofList_toDigits]
  | float x => exact writtenFloat_ne_nil x
  | _ => exact absurd h id

end Json

end Lifecycle
