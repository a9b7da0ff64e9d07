import Mathlib.Algebra.Ring.Nat
import Mathlib.Data.List.Basic
import Lifecycle.Json.Writer

/-!
# Texts that are written in quotes

A character is written in one of four forms (`Json.Escaped`): as itself, with a mark behind a
backslash, in one group of four hexadecimal digits, or in two. None of them is the beginning of
another one, so that what is written tells the text, and where it ends (`Json.writtenText_append`).
-/

namespace Lifecycle

/-! ### Hexadecimal digits -/

namespace Text

theorem length_lowerHex (width n : Nat) : (lowerHex width n).length = width := by
  induction width generalizing n with
  | zero => rfl
  | succ width ih => rw [lowerHex, List.length_append, ih, List.length_singleton]

theorem lowerHexDigit_injective {a b : Nat} (ha : a < 16) (hb : b < 16)
    (h : lowerHexDigit a = lowerHexDigit b) : a = b := by
  have hall : ∀ a < 16, ∀ b < 16, lowerHexDigit a = lowerHexDigit b → a = b := by decide
  exact hall a ha b hb h

theorem lowerHex_injective {width a b : Nat} (ha : a < 16 ^ width) (hb : b < 16 ^ width)
    (h : lowerHex width a = lowerHex width b) : a = b := by
  induction width generalizing a b with
  | zero =>
    rw [Nat.pow_zero] at ha hb
    omega
  | succ width ih =>
    rw [Nat.pow_succ] at ha hb
    rw [lowerHex, lowerHex] at h
    obtain ⟨hfront, hlast⟩ := List.append_inj' h rfl
    have hdiv : a / 16 = b / 16 := ih (by omega) (by omega) hfront
    have hmod : a % 16 = b % 16 :=
      lowerHexDigit_injective (Nat.mod_lt a (by decide)) (Nat.mod_lt b (by decide))
        (List.singleton_inj.mp hlast)
    omega

/-- Hexadecimal digits in front of a text are told by it. -/
theorem lowerHex_append {width a b : Nat} {x y : List Char} (ha : a < 16 ^ width)
    (hb : b < 16 ^ width) (h : lowerHex width a ++ x = lowerHex width b ++ y) : a = b ∧ x = y := by
  obtain ⟨hdigits, hrest⟩ := List.append_inj h (by rw [length_lowerHex, length_lowerHex])
  exact ⟨lowerHex_injective ha hb hdigits, hrest⟩

def lowerHexDigits : List Char :=
  ['0', '1', '2', '3', '4', '5', '6', '7', '8', '9', 'a', 'b', 'c', 'd', 'e', 'f']

theorem mem_lowerHex {width n : Nat} {c : Char} (h : c ∈ lowerHex width n) :
    c ∈ lowerHexDigits := by
  have hdigit : ∀ a < 16, lowerHexDigit a ∈ lowerHexDigits := by decide
  induction width generalizing n with
  | zero => cases h
  | succ width ih =>
    rw [lowerHex, List.mem_append, List.mem_singleton] at h
    rcases h with h | rfl
    · exact ih h
    · exact hdigit _ (Nat.mod_lt n (by decide))

/-! ### Characters up to a closing mark -/

/-- Characters that are written one behind the other up to a closing mark are told by what is
written, if each is told by what is written of it, and none is written with the mark at the front.
-/
theorem flatMap_append_closed {write : Char → List Char} {close : Char}
    (hhead : ∀ c, ∃ first rest, write c = first :: rest ∧ first ≠ close)
    (htold : ∀ c d x y, write c ++ x = write d ++ y → c = d ∧ x = y) {cs ds x y : List Char}
    (h : cs.flatMap write ++ close :: x = ds.flatMap write ++ close :: y) : cs = ds ∧ x = y := by
  have hends : ∀ (c : Char) (cs x y : List Char), (c :: cs).flatMap write ++ x ≠ close :: y := by
    intro c cs x y heq
    obtain ⟨first, rest, hfirst, hclose⟩ := hhead c
    rw [List.flatMap_cons, hfirst, List.cons_append, List.cons_append] at heq
    exact hclose (List.cons.inj heq).1
  induction cs generalizing ds with
  | nil =>
    cases ds with
    | nil => exact ⟨rfl, (List.cons.inj h).2⟩
    | cons d ds => exact absurd h.symm (hends d ds _ _)
  | cons c cs ih =>
    cases ds with
    | nil => exact absurd h (hends c cs _ _)
    | cons d ds =>
      rw [List.flatMap_cons, List.flatMap_cons, List.append_assoc, List.append_assoc] at h
      obtain ⟨rfl, hrest⟩ := htold c d _ _ h
      obtain ⟨rfl, hxy⟩ := ih hrest
      exact ⟨rfl, hxy⟩

end Text

namespace Json

open Text (lowerHex lowerHex_append)

/-! ### Escaped characters -/

/-- The character that a mark behind a backslash stands for. -/
def marked (mark : Char) : Char :=
  if mark = 'n' then '\n'
  else if mark = 'r' then '\r'
  else if mark = 't' then '\t'
  else if mark = 'f' then '\x0c'
  else if mark = 'b' then '\x08'
  else mark

/-- The forms that a character is written in. -/
inductive Escaped (c : Char) : List Char → Prop where
  | itself (quote : c ≠ '"') (backslash : c ≠ '\\') (ascii : c.toNat < 128) : Escaped c [c]
  | mark (mark : Char) (noUnit : mark ≠ 'u') (ascii : mark.toNat < 128) (stands : marked mark = c) :
    Escaped c ['\\', mark]
  | unit (small : c.toNat < 0x10000) : Escaped c ('\\' :: 'u' :: lowerHex 4 c.toNat)
  | pair (large : 0x10000 ≤ c.toNat) :
    Escaped c ('\\' :: 'u' :: lowerHex 4 (0xD800 + (c.toNat - 0x10000) / 0x400) ++
      '\\' :: 'u' :: lowerHex 4 (0xDC00 + (c.toNat - 0x10000) % 0x400))

theorem escaped_escapedChar (c : Char) : Escaped c (escapedChar c) := by
  have hmark : ∀ mark, mark ≠ 'u' → mark.toNat < 128 → c = marked mark →
      Escaped c ['\\', mark] :=
    fun mark hunit hascii hstands => .mark mark hunit hascii hstands.symm
  unfold escapedChar
  simp only [beq_iff_eq]
  split_ifs with hquote hbackslash hn hr ht hf hb hprintable
  · exact hmark '"' (by decide) (by decide) hquote
  · exact hmark '\\' (by decide) (by decide) hbackslash
  · exact hmark 'n' (by decide) (by decide) hn
  · exact hmark 'r' (by decide) (by decide) hr
  · exact hmark 't' (by decide) (by decide) ht
  · exact hmark 'f' (by decide) (by decide) hf
  · exact hmark 'b' (by decide) (by decide) hb
  · simp only [Bool.and_eq_true, decide_eq_true_eq] at hprintable
    exact .itself hquote hbackslash (by omega)
  · rw [unitEscape]
    split_ifs with hsmall
    · exact .unit hsmall
    · exact .pair (by omega)

/-- A code point is no half of a pair of units. -/
theorem toNat_bounds (c : Char) : c.toNat < 0xD800 ∨ 0xDFFF < c.toNat ∧ c.toNat < 0x110000 :=
  c.valid

/-- A character in front of a text is told by what is written. -/
theorem Escaped.append {c d : Char} {cs ds x y : List Char} (hc : Escaped c cs)
    (hd : Escaped d ds) (h : cs ++ x = ds ++ y) : c = d ∧ x = y := by
  have hboundsC := toNat_bounds c
  have hboundsD := toNat_bounds d
  -- the first two characters tell the forms apart, but for one group of digits and two; there the
  -- first group of two is half of a pair, which no character is
  cases hc with
  | itself quote backslash =>
    cases hd with
    | itself => simpa using h
    | mark => simp [backslash] at h
    | unit => simp [backslash] at h
    | pair => simp [backslash] at h
  | mark mark noUnit ascii stands =>
    cases hd with
    | itself quote backslash => simp [Ne.symm backslash] at h
    | mark other noUnit' ascii' stands' =>
      simp only [List.cons_append, List.nil_append, List.cons.injEq, true_and] at h
      obtain ⟨rfl, hrest⟩ := h
      exact ⟨stands.symm.trans stands', hrest⟩
    | unit => simp [noUnit] at h
    | pair => simp [noUnit] at h
  | unit small =>
    cases hd with
    | itself quote backslash => simp [Ne.symm backslash] at h
    | mark mark noUnit => simp [Ne.symm noUnit] at h
    | unit small' =>
      simp only [List.cons_append, List.cons.injEq, true_and] at h
      obtain ⟨hcode, hrest⟩ := lowerHex_append (by omega) (by omega) h
      exact ⟨Char.toNat_inj.mp hcode, hrest⟩
    | pair large =>
      simp only [List.cons_append, List.append_assoc, List.cons.injEq, true_and] at h
      obtain ⟨hcode, -⟩ := lowerHex_append (by omega) (by omega) h
      omega
  | pair large =>
    cases hd with
    | itself quote backslash => simp [Ne.symm backslash] at h
    | mark mark noUnit => simp [Ne.symm noUnit] at h
    | unit small =>
      simp only [List.cons_append, List.append_assoc, List.cons.injEq, true_and] at h
      obtain ⟨hcode, -⟩ := lowerHex_append (by omega) (by omega) h
      omega
    | pair large' =>
      simp only [List.cons_append, List.append_assoc, List.cons.injEq, true_and] at h
      obtain ⟨hhigh, h⟩ := lowerHex_append (by omega) (by omega) h
      simp only [List.cons.injEq, true_and] at h
      obtain ⟨hlow, hrest⟩ := lowerHex_append (by omega) (by omega) h
      have hcode : c.toNat = d.toNat := by omega
      exact ⟨Char.toNat_inj.mp hcode, hrest⟩

theorem Escaped.head {c : Char} {cs : List Char} (h : Escaped c cs) :
    ∃ first rest, cs = first :: rest ∧ first ≠ '"' := by
  cases h with
  | itself quote => exact ⟨c, [], rfl, quote⟩
  | mark mark => exact ⟨'\\', [mark], rfl, by decide⟩
  | unit => exact ⟨'\\', _, rfl, by decide⟩
  | pair => exact ⟨'\\', _, rfl, by decide⟩

theorem Escaped.ascii {c : Char} {cs : List Char} (h : Escaped c cs) :
    ∀ other ∈ cs, other.toNat < 128 := by
  have hhex : ∀ c ∈ Text.lowerHexDigits, c.toNat < 128 := by simp [Text.lowerHexDigits]
  have hunit : ∀ n, ∀ c ∈ '\\' :: 'u' :: lowerHex 4 n, c.toNat < 128 := by
    intro n c hc
    rcases List.mem_cons.mp hc with rfl | hc
    · decide
    rcases List.mem_cons.mp hc with rfl | hc
    · decide
    · exact hhex c (Text.mem_lowerHex hc)
  cases h with
  | itself _ _ ascii => simpa using ascii
  | mark mark _ ascii => simpa using ascii
  | unit => exact hunit _
  | pair =>
    intro other hother
    rcases List.mem_append.mp hother with hother | hother
    · exact hunit _ other hother
    · exact hunit _ other hother

/-! ### Texts in quotes -/

/-- A text in quotes in front of another one is told by what is written. -/
theorem writtenText_append {cs ds x y : List Char} (h : writtenText cs ++ x = writtenText ds ++ y) :
    cs = ds ∧ x = y := by
  have hinner : cs.flatMap escapedChar ++ '"' :: x = ds.flatMap escapedChar ++ '"' :: y := by
    simpa [writtenText] using h
  exact Text.flatMap_append_closed (fun c => (escaped_escapedChar c).head)
    (fun c d _ _ => (escaped_escapedChar c).append (escaped_escapedChar d)) hinner

theorem ascii_writtenText (cs : List Char) : ∀ c ∈ writtenText cs, c.toNat < 128 := by
  intro c hc
  rw [writtenText, List.mem_append, List.mem_cons, List.mem_singleton, List.mem_flatMap] at hc
  rcases hc with (rfl | ⟨d, -, hd⟩) | rfl
  · decide
  · exact (escaped_escapedChar d).ascii c hd
  · decide

end Json

end Lifecycle
