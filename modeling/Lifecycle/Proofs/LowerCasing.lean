import Mathlib.Data.List.Basic
import Lifecycle.Text.Glob
import Lifecycle.Text.LowerCase

/-!
# Texts looked for without regard to casing

A text is looked for in others with a pattern that has it between two stars, and texts and pattern
are written in lower case before they are compared. Two facts make that a search for a part. Lower
case brings none of the marks of patterns into a text (`Text.Free.lower`): the lower-case form of a
character beyond ASCII is beyond ASCII too, but for the sign of the unit kelvin and the capital I
with dot. And a star ends a word as the end of a text does, so that a text has between the stars the
lower case that it has alone (`Text.lower_between`).

The pattern then matches the texts that have the one looked for as a part, both in lower case
(`Text.Glob.matches_lower_between`).
-/

namespace Lifecycle.Text

/-! ### Lower-case forms -/

/-- The characters that begin a part of a pattern of their own. -/
def Glob.marks : List Char := ['*', '?', '[']

/-- A text has none of the marks of patterns. -/
def Free (cs : List Char) : Prop := ∀ c ∈ cs, c ∉ Glob.marks

instance (cs : List Char) : Decidable (Free cs) :=
  List.decidableBAll (· ∉ Glob.marks) cs

/-- A code point of a character beyond ASCII. -/
def BeyondAscii (code : Nat) : Prop := 0x80 ≤ code ∧ code.isValidChar

/-- The forms of a run of characters are all beyond ASCII, or the run is the sign of the unit
kelvin, whose form is `k`. -/
theorem lowerRuns_beyond : ∀ run ∈ lowerRuns,
    0x80 ≤ run.1 + run.2.2.2 ∧ run.2.1 + run.2.2.2 < 0xD800 ∨
      0xE000 ≤ run.1 + run.2.2.2 ∧ run.2.1 + run.2.2.2 < 0x110000 ∨
        run.1 = run.2.1 ∧ run.1 + run.2.2.2 = 0x6B := by
  decide +kernel

theorem lowerCode_beyond {code : Nat} (h : BeyondAscii code) :
    BeyondAscii (lowerCode code) ∨ lowerCode code = 0x6B := by
  unfold lowerCode
  split
  · rename_i first last stride distance hfind
    have hforms := lowerRuns_beyond _ (List.mem_of_find?_eq_some hfind)
    have hrange := List.find?_some hfind
    simp only [Bool.and_eq_true, decide_eq_true_eq] at hrange
    dsimp only at hforms
    rw [BeyondAscii, Nat.isValidChar]
    omega
  · exact .inl h

theorem toNat_ofNat {code : Nat} (h : code.isValidChar) : (Char.ofNat code).toNat = code := by
  rw [Char.ofNat, dif_pos h]
  rfl

/-- The only mark among the forms of a character is the character itself. -/
theorem eq_of_mem_lowerChar {c d : Char} (h : d ∈ lowerChar c) (hd : d ∈ Glob.marks) : d = c := by
  rw [lowerChar] at h
  split_ifs at h with hascii hdot
  · have hall : ∀ n < 0x80, (Char.ofNat n).toLower ∈ Glob.marks →
        (Char.ofNat n).toLower = Char.ofNat n := by decide
    have hsame := hall c.toNat hascii
    rw [Char.ofNat_toNat] at hsame
    rw [List.mem_singleton] at h
    rw [h] at hd ⊢
    exact hsame hd
  · have hforms : Free ['i', '\u0307'] := by decide
    exact absurd hd (hforms d h)
  · have hcodes : ∀ d ∈ Glob.marks, d.toNat < 0x6B := by simp [Glob.marks]
    have hsmall := hcodes d hd
    rw [List.mem_singleton] at h
    rcases lowerCode_beyond ⟨Nat.le_of_not_lt hascii, c.valid⟩ with ⟨hleast, hvalid⟩ | hkelvin
    · rw [h, toNat_ofNat hvalid] at hsmall
      omega
    · rw [h, hkelvin] at hsmall
      exact absurd hsmall (by decide)

theorem Free.lowerAfter {cs : List Char} (h : Free cs) (before : List Char) :
    Free (lowerAfter before cs) := by
  induction cs generalizing before with
  | nil => exact fun c hc => by cases hc
  | cons first rest ih =>
    intro c hc hmark
    rw [Text.lowerAfter] at hc
    rcases List.mem_append.mp hc with hform | hrest
    · split_ifs at hform with hsigma hfinal
      · exact absurd hmark (by rw [List.mem_singleton.mp hform]; decide)
      · exact absurd hmark (by rw [List.mem_singleton.mp hform]; decide)
      · obtain rfl := eq_of_mem_lowerChar hform hmark
        exact h c List.mem_cons_self hmark
    · exact ih (fun c hc => h c (List.mem_cons_of_mem _ hc)) _ c hrest hmark

theorem Free.lower {s : String} (h : Free s.toList) : Free (lower s).toList := by
  rw [Text.lower, String.toList_ofList]
  exact h.lowerAfter []

/-! ### Between stars -/

/-- A star at the far end of some neighbours is no cased one. -/
theorem nearestIsCased_star (neighbours : List Char) :
    nearestIsCased (neighbours ++ ['*']) = nearestIsCased neighbours := by
  have hstar : nearestIsCased ['*'] = false := by decide +kernel
  unfold nearestIsCased at hstar ⊢
  rw [List.find?_append]
  cases neighbours.find? fun c => !inClass caseIgnorableRanges c with
  | none => rw [Option.none_or]; exact hstar
  | some c => rfl

theorem lowerAfter_star_before (before cs : List Char) :
    lowerAfter (before ++ ['*']) cs = lowerAfter before cs := by
  induction cs generalizing before with
  | nil => rfl
  | cons c rest ih =>
    rw [lowerAfter, lowerAfter, nearestIsCased_star, ← List.cons_append, ih]

theorem lowerAfter_star_behind (before cs : List Char) :
    lowerAfter before (cs ++ ['*']) = lowerAfter before cs ++ ['*'] := by
  induction cs generalizing before with
  | nil => rfl
  | cons c rest ih =>
    rw [List.cons_append, lowerAfter, lowerAfter, nearestIsCased_star, ih, List.append_assoc]

/-- Between stars a text has the lower case that it has alone. -/
theorem lower_between (s : String) : lower ("*" ++ s ++ "*") = "*" ++ lower s ++ "*" := by
  have hfirst : lowerAfter [] ('*' :: s.toList) = '*' :: lowerAfter [] s.toList :=
    congrArg ('*' :: ·) (lowerAfter_star_before [] s.toList)
  have hlist : ("*" ++ s ++ "*").toList = '*' :: s.toList ++ ['*'] := by simp
  rw [← String.toList_inj, lower, lower, hlist, lowerAfter_star_behind, hfirst]
  simp

/-! ### Patterns -/

namespace Glob

/-- Characters that are no marks stand for themselves. -/
theorem partsWithin_append {cs : List Char} (h : Free cs) (rest : List Char) (fuel : Nat) :
    partsWithin (cs.length + fuel) (cs ++ rest) = cs.map .char ++ partsWithin fuel rest := by
  induction cs with
  | nil => simp
  | cons c cs ih =>
    have hc := h c List.mem_cons_self
    simp only [marks, List.mem_cons, List.not_mem_nil, or_false, not_or] at hc
    obtain ⟨hstar, hmark, hbracket⟩ := hc
    rw [List.length_cons, Nat.add_right_comm, List.cons_append, partsWithin.eq_6 _ _ _ hstar hmark
      hbracket, ih fun c hc => h c (List.mem_cons_of_mem _ hc), List.map_cons, List.cons_append]

theorem parts_between {cs : List Char} (h : Free cs) :
    parts ('*' :: cs ++ ['*']) = .anything :: (cs.map .char ++ [.anything]) := by
  have hparts := partsWithin_append h ['*'] 1
  rw [parts, List.length_append, List.length_cons, Nat.add_right_comm]
  exact congrArg (.anything :: ·) hparts

theorem someEnd_eq_true_iff {p : List Char → Bool} {cs : List Char} :
    someEnd p cs = true ↔ ∃ last, last <:+ cs ∧ p last = true := by
  induction cs with
  | nil => simp [someEnd]
  | cons c rest ih =>
    rw [someEnd, Bool.or_eq_true, ih]
    simp only [List.suffix_cons_iff, or_and_right, exists_or, exists_eq_left]

theorem matchesParts_chars (part rest : List Char) :
    matchesParts (part.map .char ++ [.anything]) rest = true ↔ part <+: rest := by
  induction part generalizing rest with
  | nil => simp [matchesParts, someEnd_eq_true_iff]
  | cons c part ih =>
    cases rest with
    | nil => simp [matchesParts]
    | cons d rest =>
      have hcons : matchesParts (.char c :: (part.map .char ++ [.anything])) (d :: rest) =
          (d == c && matchesParts (part.map .char ++ [.anything]) rest) := rfl
      rw [List.map_cons, List.cons_append, hcons, Bool.and_eq_true, ih, beq_iff_eq,
        List.cons_prefix_cons, eq_comm]

/-- A text that is looked for between two stars is found in the texts that have it as a part. -/
theorem matches_between {cs : List Char} (h : Free cs) (text : List Char) :
    matchesParts (parts ('*' :: cs ++ ['*'])) text = true ↔ cs <:+: text := by
  rw [parts_between h, matchesParts, someEnd_eq_true_iff]
  simp only [matchesParts_chars, List.infix_iff_prefix_suffix]
  exact exists_congr fun last => and_comm

/-- A text without marks that is looked for between two stars, in lower case, is found in the texts
that have it as a part in lower case. -/
theorem matches_lower_between {s : String} (h : Free s.toList) (text : String) :
    matchesText (lower ("*" ++ s ++ "*")) (lower text) = true ↔
      (lower s).toList <:+: (lower text).toList := by
  rw [lower_between, matchesText, show ("*" ++ lower s ++ "*").toList =
    '*' :: (lower s).toList ++ ['*'] by simp]
  exact matches_between h.lower _

end Glob

end Lifecycle.Text
