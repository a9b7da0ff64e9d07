import Mathlib.Data.List.Basic
import Lifecycle.Text.Blank
import Lifecycle.Text.Percent
import Lifecycle.Text.Split

/-!
# Texts that are percent-encoded

Reading gives back what was written, in two steps: the octets of a character at the front of others
are read as that character (`Utf8.decode_append`), and the group or the mark that is written for an
octet is read as that octet (`Percent.octets_append`). What is written consists of unreserved
characters and of groups (`Percent.encoded_encode`), among which there is no slash, so that segments
with slashes between them are found again by splitting at the slashes (`Text.split_intercalate`).
-/

namespace Lifecycle.Text

/-! ### UTF-8 -/

namespace Utf8

theorem decode_one {a : Nat} (ha : a < 0x80) (rest : List Nat) :
    decode (a :: rest) = Char.ofNat a :: decode rest := by
  rcases rest with _ | ⟨b, _ | ⟨c, _ | ⟨d, rest⟩⟩⟩ <;> simp [decode, ha]

theorem decode_two {a b : Nat} (ha : 0xC2 ≤ a ∧ a < 0xE0) (hb : continues b = true)
    (rest : List Nat) :
    decode (a :: b :: rest) =
      Char.ofNat ((a - 0xC0) * 0x40 + (b - 0x80)) :: decode rest := by
  have hone : ¬a < 0x80 := by omega
  rcases rest with _ | ⟨c, _ | ⟨d, rest⟩⟩ <;> simp [decode, hone, ha, hb]

theorem decode_three {a b c : Nat} (hab : pairOfThree a b = true) (hc : continues c = true)
    (rest : List Nat) :
    decode (a :: b :: c :: rest) =
      Char.ofNat ((a - 0xE0) * 0x1000 + (b - 0x80) * 0x40 + (c - 0x80)) :: decode rest := by
  have ha : 0xE0 ≤ a := by
    simp only [pairOfThree, Bool.and_eq_true, decide_eq_true_eq] at hab
    exact hab.1.1.1.1
  have hone : ¬a < 0x80 := by omega
  have htwo : ¬a < 0xE0 := by omega
  rcases rest with _ | ⟨d, rest⟩ <;> simp [decode, hone, htwo, hab, hc]

theorem decode_four {a b c d : Nat} (hab : pairOfFour a b = true) (hc : continues c = true)
    (hd : continues d = true) (rest : List Nat) :
    decode (a :: b :: c :: d :: rest) =
      Char.ofNat ((a - 0xF0) * 0x40000 + (b - 0x80) * 0x1000 + (c - 0x80) * 0x40 + (d - 0x80)) ::
        decode rest := by
  have ha : 0xF0 ≤ a := by
    simp only [pairOfFour, Bool.and_eq_true, decide_eq_true_eq] at hab
    exact hab.1.1.1.1
  have hone : ¬a < 0x80 := by omega
  have htwo : ¬a < 0xE0 := by omega
  have hthree : pairOfThree a b = false := by
    have : ¬a < 0xF0 := by omega
    simp [pairOfThree, this]
  simp [decode, hone, htwo, hthree, hab, hc, hd]

/-- The octets of a character are read as that character, whatever follows. -/
theorem decode_append (c : Char) (rest : List Nat) :
    decode (octets c ++ rest) = c :: decode rest := by
  have hvalid : c.toNat < 0xD800 ∨ 0xDFFF < c.toNat ∧ c.toNat < 0x110000 := c.valid
  have hchar : ∀ n, n = c.toNat → Char.ofNat n = c := by
    rintro n rfl
    exact Char.ofNat_toNat c
  unfold octets
  set n := c.toNat with hn
  have hlast : continues (0x80 + n % 0x40) = true := by
    simp only [continues, Bool.and_eq_true, decide_eq_true_eq]
    omega
  have hmiddle : continues (0x80 + n / 0x40 % 0x40) = true := by
    simp only [continues, Bool.and_eq_true, decide_eq_true_eq]
    omega
  dsimp only
  split_ifs with hone htwo hthree
  · rw [List.singleton_append, decode_one hone, hchar n rfl]
  · rw [List.cons_append, List.singleton_append, decode_two (by omega) hlast, hchar _ (by omega)]
  · have hpair : pairOfThree (0xE0 + n / 0x1000) (0x80 + n / 0x40 % 0x40) = true := by
      simp only [pairOfThree, continues, Bool.and_eq_true, Bool.or_eq_true, decide_eq_true_eq,
        bne_iff_ne]
      omega
    rw [List.cons_append, List.cons_append, List.singleton_append, decode_three hpair hlast,
      hchar _ (by omega)]
  · have hpair : pairOfFour (0xF0 + n / 0x40000) (0x80 + n / 0x1000 % 0x40) = true := by
      simp only [pairOfFour, continues, Bool.and_eq_true, Bool.or_eq_true, decide_eq_true_eq,
        bne_iff_ne]
      omega
    rw [List.cons_append, List.cons_append, List.cons_append, List.singleton_append,
      decode_four hpair hmiddle hlast, hchar _ (by omega)]

theorem decode_encode (cs : List Char) : decode (encode cs) = cs := by
  induction cs with
  | nil => rfl
  | cons c rest ih =>
    rw [encode, List.flatMap_cons, decode_append]
    exact congrArg (c :: ·) ih

theorem octet_lt {c : Char} {b : Nat} (h : b ∈ octets c) : b < 0x100 := by
  have hvalid : c.toNat < 0xD800 ∨ 0xDFFF < c.toNat ∧ c.toNat < 0x110000 := c.valid
  unfold octets at h
  dsimp only at h
  split_ifs at h <;> simp only [List.mem_cons, List.not_mem_nil, or_false] at h <;> omega

end Utf8

/-! ### Percent signs -/

namespace Percent

/-- The characters that stand for themselves: letters and digits of ASCII and four marks. -/
def Unreserved (c : Char) : Prop := c.isAlphanum = true ∨ c ∈ ['-', '.', '_', '~']

instance (c : Char) : Decidable (Unreserved c) := inferInstanceAs (Decidable (_ ∨ _))

def upperHexDigits : List Char :=
  ['0', '1', '2', '3', '4', '5', '6', '7', '8', '9', 'A', 'B', 'C', 'D', 'E', 'F']

/-- What a text may be encoded as: unreserved characters, and percent signs with two hexadecimal
digits each. -/
inductive Encoded : List Char → Prop where
  | nil : Encoded []
  | mark {c : Char} {rest : List Char} (unreserved : Unreserved c) (more : Encoded rest) :
    Encoded (c :: rest)
  | group {high low : Char} {rest : List Char} (high_mem : high ∈ upperHexDigits)
    (low_mem : low ∈ upperHexDigits) (more : Encoded rest) : Encoded ('%' :: high :: low :: rest)

theorem hexValue?_upperHexDigit : ∀ n < 16, hexValue? (upperHexDigit n) = some n := by decide

theorem upperHexDigit_mem : ∀ n < 16, upperHexDigit n ∈ upperHexDigits := by decide

theorem lt_of_unreserved {b : Nat} (h : unreserved b = true) : b < 0x80 := by
  simp only [unreserved, Bool.or_eq_true, Bool.and_eq_true, decide_eq_true_eq, beq_iff_eq] at h
  omega

/-- An octet that is written as itself is that of an unreserved character. -/
theorem unreserved_ofNat {b : Nat} (h : unreserved b = true) : Unreserved (Char.ofNat b) := by
  have hall : ∀ b < 0x80, unreserved b = true → Unreserved (Char.ofNat b) := by decide
  exact hall b (lt_of_unreserved h) h

/-- What is written for an octet is read as that octet, whatever follows. -/
theorem octets_append {b : Nat} (hb : b < 0x100) (rest : List Char) :
    octets (encodedOctet b ++ rest) = b :: octets rest := by
  have hmark : ∀ c : Char, c ≠ '%' → octets (c :: rest) = Utf8.octets c ++ octets rest := by
    intro c hc
    rcases rest with _ | ⟨d, _ | ⟨e, rest⟩⟩ <;> simp [octets, hc]
  rw [encodedOctet]
  split_ifs with h
  · have hascii := lt_of_unreserved h
    have hpercent : Char.ofNat b ≠ '%' := by
      intro heq
      have hmark := unreserved_ofNat h
      rw [heq] at hmark
      exact absurd hmark (by decide)
    have hself : Utf8.octets (Char.ofNat b) = [b] := by
      have hall : ∀ b < 0x80, Utf8.octets (Char.ofNat b) = [b] := by decide
      exact hall b hascii
    rw [List.singleton_append, hmark _ hpercent, hself, List.singleton_append]
  · have hhigh := hexValue?_upperHexDigit (b / 16) (by omega)
    have hlow := hexValue?_upperHexDigit (b % 16) (by omega)
    simp only [List.cons_append, List.nil_append, octets, beq_self_eq_true, if_true, hhigh, hlow]
    rw [Nat.div_add_mod]

theorem octets_flatMap {bs : List Nat} (h : ∀ b ∈ bs, b < 0x100) :
    octets (bs.flatMap encodedOctet) = bs := by
  induction bs with
  | nil => rfl
  | cons b rest ih =>
    rw [List.flatMap_cons, octets_append (h b List.mem_cons_self),
      ih fun c hc => h c (List.mem_cons_of_mem b hc)]

/-- Reading gives back the text that was written. -/
theorem decode_encode (s : String) : decode (encode s) = s := by
  have hoctets : ∀ b ∈ Utf8.encode s.toList, b < 0x100 := by
    intro b hb
    obtain ⟨c, -, hc⟩ := List.mem_flatMap.mp hb
    exact Utf8.octet_lt hc
  rw [decode, encode, String.toList_ofList, decodeChars, encodeChars, octets_flatMap hoctets,
    Utf8.decode_encode, String.ofList_toList]

/-- What is written consists of unreserved characters and of groups. -/
theorem encoded_encode (s : String) : Encoded (encode s).toList := by
  have hall : ∀ bs : List Nat, (∀ b ∈ bs, b < 0x100) → Encoded (bs.flatMap encodedOctet) := by
    intro bs hbs
    induction bs with
    | nil => exact .nil
    | cons b rest ih =>
      have hb := hbs b List.mem_cons_self
      have hrest := ih fun c hc => hbs c (List.mem_cons_of_mem b hc)
      rw [List.flatMap_cons, encodedOctet]
      split_ifs with h
      · exact .mark (unreserved_ofNat h) hrest
      · exact .group (upperHexDigit_mem _ (by omega)) (upperHexDigit_mem _ (by omega)) hrest
  rw [encode, String.toList_ofList]
  refine hall _ fun b hb => ?_
  obtain ⟨c, -, hc⟩ := List.mem_flatMap.mp hb
  exact Utf8.octet_lt hc

/-- The marks that end a segment, or the path, are not among what is written. -/
theorem Encoded.not_mem {cs : List Char} (h : Encoded cs) {c : Char} (hc : c ∈ ['/', '?', '#']) :
    c ∉ cs := by
  have hother : c ∉ '%' :: upperHexDigits ∧ ¬Unreserved c := by
    simp only [List.mem_cons, List.not_mem_nil, or_false] at hc
    obtain rfl | rfl | rfl := hc <;> exact ⟨by decide, by decide⟩
  obtain ⟨hgroup, hmark⟩ := hother
  induction h with
  | nil => exact List.not_mem_nil
  | mark unreserved _ ih =>
    rw [List.mem_cons]
    rintro (rfl | hrest)
    · exact hmark unreserved
    · exact ih hrest
  | group high_mem low_mem _ ih =>
    simp only [List.mem_cons]
    rintro (rfl | rfl | rfl | hrest)
    · exact hgroup List.mem_cons_self
    · exact hgroup (List.mem_cons_of_mem _ high_mem)
    · exact hgroup (List.mem_cons_of_mem _ low_mem)
    · exact ih hrest

end Percent

/-! ### Segments -/

/-- The pieces of a list are those that the library splits it into. -/
theorem splitAt_eq_splitOn (c : Char) (cs : List Char) : splitAt c cs = cs.splitOn c := by
  induction cs with
  | nil => rfl
  | cons d rest ih =>
    obtain ⟨piece, pieces, hrest⟩ := List.exists_cons_of_ne_nil (splitAt_ne_nil c rest)
    rw [List.splitOn, List.splitOnP_cons_eq_if_modifyHead, ← List.splitOn, ← ih, splitAt, hrest]
    rfl

/-- Pieces without a character that are joined with it are found again by splitting at it. -/
theorem split_intercalate {c : Char} {pieces : List String} (hsome : pieces ≠ [])
    (h : ∀ piece ∈ pieces, c ∉ piece.toList) :
    split c (String.intercalate (String.singleton c) pieces) = pieces := by
  have hpieces : ∀ piece ∈ pieces.map String.toList, c ∉ piece := by
    intro piece hpiece
    obtain ⟨s, hs, rfl⟩ := List.mem_map.mp hpiece
    exact h s hs
  rw [split, splitAt_eq_splitOn, String.toList_intercalate, String.toList_singleton,
    List.splitOn_intercalate c hpieces (by simpa using hsome), List.map_map]
  simp [Function.comp_def]

theorem mem_of_mem_intercalate {c : Char} {between : List Char} {pieces : List (List Char)}
    (h : c ∈ between.intercalate pieces) : c ∈ between ∨ ∃ piece ∈ pieces, c ∈ piece := by
  induction pieces with
  | nil => cases h
  | cons piece rest ih =>
    cases rest with
    | nil => exact .inr ⟨piece, List.mem_cons_self, by simpa using h⟩
    | cons next more =>
      rw [List.intercalate_cons_cons, List.mem_append, List.mem_append] at h
      rcases h with (hpiece | hbetween) | hrest
      · exact .inr ⟨piece, List.mem_cons_self, hpiece⟩
      · exact .inl hbetween
      · exact (ih hrest).imp_right fun ⟨other, hother, hmem⟩ =>
          ⟨other, List.mem_cons_of_mem _ hother, hmem⟩

/-- A text is what is left of it without a character at its end, and that character as often as it
stands there. -/
theorem exists_replicate_of_trimEnd (c : Char) (s : String) :
    ∃ n, s.toList = (trimEnd c s).toList ++ List.replicate n c ∧
      (trimEnd c s).toList.getLast? ≠ some c := by
  have hparts := List.takeWhile_append_dropWhile (p := (· == c)) (l := s.toList.reverse)
  have hall : s.toList.reverse.takeWhile (· == c) =
      List.replicate (s.toList.reverse.takeWhile (· == c)).length c :=
    List.eq_replicate_of_mem fun d hd => by
      simpa using List.all_eq_true.mp List.all_takeWhile d hd
  refine ⟨(s.toList.reverse.takeWhile (· == c)).length, ?_, ?_⟩
  · rw [trimEnd, String.toList_ofList, dropEnd, ← List.reverse_replicate, ← hall,
      ← List.reverse_append, hparts, List.reverse_reverse]
  · rw [trimEnd, String.toList_ofList, dropEnd, List.getLast?_reverse]
    intro hhead
    have hfirst := List.head?_dropWhile_not (· == c) s.toList.reverse
    rw [hhead] at hfirst
    simp at hfirst

end Lifecycle.Text
