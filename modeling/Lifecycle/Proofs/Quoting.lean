import Lifecycle.Proofs.Escapes
import Lifecycle.Text.Quoted

/-!
# Quoted texts

Between quotes a character is written as itself, with a mark behind a backslash, or by its code
(`Text.Shown`). None of these forms is the beginning of another one, so that a quoted text is told
by what is written, and so is where it ends (`Text.quotedBy_append`).

A text that is longer by some characters at its end may be put between other quotes. It is not
written shorter for that (`Text.length_quotedBy_le`): double quotes are used only while no double
quote has to be escaped.
-/

namespace Lifecycle.Text

variable {plain : Char → Bool}

/-! ### Characters between quotes -/

/-- The character behind the backslash of a code, and how many digits stand behind that. -/
def codeLeads : List (Char × Nat) := [('x', 2), ('u', 4), ('U', 8)]

/-- The forms that a character is written in between the given quotes. -/
inductive Shown (quote c : Char) : List Char → Prop where
  | itself (other : c ≠ quote) (backslash : c ≠ '\\') : Shown quote c [c]
  | mark (mark : Char) (noLead : ∀ width, (mark, width) ∉ codeLeads)
    (stands : Json.marked mark = c) : Shown quote c ['\\', mark]
  | code (lead : Char) (width : Nat) (known : (lead, width) ∈ codeLeads)
    (small : c.toNat < 16 ^ width) : Shown quote c ('\\' :: lead :: lowerHex width c.toNat)

theorem shown_codeEscape (quote c : Char) : Shown quote c (codeEscape c.toNat) := by
  have hbounds := Json.toNat_bounds c
  rw [codeEscape]
  split_ifs with hbyte hunit
  · exact .code 'x' 2 (by decide) (by omega)
  · exact .code 'u' 4 (by decide) (by omega)
  · exact .code 'U' 8 (by decide) (by omega)

theorem quoteFor_eq (cs : List Char) : quoteFor cs = '\'' ∨ quoteFor cs = '"' := by
  rw [quoteFor]
  split_ifs
  · exact .inr rfl
  · exact .inl rfl

theorem shown_quotedChar {quote : Char} (hquote : quote = '\'' ∨ quote = '"') (c : Char) :
    Shown quote c (quotedChar plain quote c) := by
  have hmark : ∀ mark : Char, (∀ lead ∈ codeLeads, lead.1 ≠ mark) → c = Json.marked mark →
      Shown quote c ['\\', mark] :=
    fun mark hlead hstands => .mark mark (fun width h => hlead _ h rfl) hstands.symm
  unfold quotedChar
  simp only [Bool.or_eq_true, beq_iff_eq]
  split_ifs with hself hn hr ht
  · rcases hself with rfl | rfl
    · rcases hquote with rfl | rfl
      · exact hmark '\'' (by decide) (by decide)
      · exact hmark '"' (by decide) (by decide)
    · exact hmark '\\' (by decide) (by decide)
  · exact hmark 'n' (by decide) hn
  · exact hmark 'r' (by decide) hr
  · exact hmark 't' (by decide) ht
  · exact .itself (fun h => hself (.inl h)) (fun h => hself (.inr h))
  · exact shown_codeEscape quote c

/-- A character in front of a text is told by what is written of it between quotes. -/
theorem Shown.append {quote c d : Char} {cs ds x y : List Char} (hc : Shown quote c cs)
    (hd : Shown quote d ds) (h : cs ++ x = ds ++ y) : c = d ∧ x = y := by
  cases hc with
  | itself other backslash =>
    cases hd with
    | itself => simpa using h
    | mark => simp [backslash] at h
    | code => simp [backslash] at h
  | mark mark noLead stands =>
    cases hd with
    | itself other backslash => simp [Ne.symm backslash] at h
    | mark mark' noLead' stands' =>
      simp only [List.cons_append, List.nil_append, List.cons.injEq, true_and] at h
      obtain ⟨rfl, hrest⟩ := h
      exact ⟨stands.symm.trans stands', hrest⟩
    | code lead width known =>
      simp only [List.cons_append, List.nil_append, List.cons.injEq, true_and] at h
      obtain ⟨rfl, -⟩ := h
      exact absurd known (noLead width)
  | code lead width known small =>
    cases hd with
    | itself other backslash => simp [Ne.symm backslash] at h
    | mark mark noLead =>
      simp only [List.cons_append, List.nil_append, List.cons.injEq, true_and] at h
      obtain ⟨rfl, -⟩ := h
      exact absurd known (noLead width)
    | code lead' width' known' small' =>
      simp only [List.cons_append, List.cons.injEq, true_and] at h
      obtain ⟨rfl, hdigits⟩ := h
      -- the lead tells how many digits there are
      have hone : ∀ a ∈ codeLeads, ∀ b ∈ codeLeads, a.1 = b.1 → a.2 = b.2 := by decide
      obtain rfl : width = width' := hone _ known _ known' rfl
      obtain ⟨hcode, hrest⟩ := lowerHex_append small small' hdigits
      exact ⟨Char.toNat_inj.mp hcode, hrest⟩

theorem Shown.head {quote c : Char} {cs : List Char} (hquote : quote = '\'' ∨ quote = '"')
    (h : Shown quote c cs) : ∃ first rest, cs = first :: rest ∧ first ≠ quote := by
  have hbackslash : '\\' ≠ quote := by
    rcases hquote with rfl | rfl <;> decide
  cases h with
  | itself other => exact ⟨c, [], rfl, other⟩
  | mark mark => exact ⟨'\\', [mark], rfl, hbackslash⟩
  | code => exact ⟨'\\', _, rfl, hbackslash⟩

/-! ### Texts -/

/-- A quoted text in front of another one is told by what is written. -/
theorem quotedBy_append {cs ds x y : List Char}
    (h : quotedBy plain cs ++ x = quotedBy plain ds ++ y) : cs = ds ∧ x = y := by
  simp only [quotedBy, List.cons_append, List.append_assoc, List.cons.injEq, List.nil_append] at h
  obtain ⟨hquote, hinner⟩ := h
  rw [← hquote] at hinner
  have hshown : ∀ c, Shown (quoteFor cs) c (quotedChar plain (quoteFor cs) c) :=
    shown_quotedChar (quoteFor_eq cs)
  exact flatMap_append_closed (fun c => (hshown c).head (quoteFor_eq cs))
    (fun c d _ _ => (hshown c).append (hshown d)) hinner

/-- A character of a text takes no fewer characters when the text becomes longer, although it may
stand between other quotes then. -/
theorem length_quotedChar_le (hplain : plain '\'' = true) {cs : List Char} {c : Char} (hc : c ∈ cs)
    (more : List Char) :
    (quotedChar plain (quoteFor cs) c).length ≤
      (quotedChar plain (quoteFor (cs ++ more)) c).length := by
  by_cases hother : c = '\'' ∨ c = '"'
  · rcases hother with rfl | rfl
    · by_cases hdouble : '"' ∈ cs
      · simp [quoteFor, hdouble]
      · have hshort : (quotedChar plain '"' '\'').length = 1 := by simp [quotedChar, hplain]
        have hlong : ∀ quote, 1 ≤ (quotedChar plain quote '\'').length := by
          intro quote
          unfold quotedChar
          split_ifs <;> simp
        have hquote : quoteFor cs = '"' := by simp [quoteFor, hc, hdouble]
        rw [hquote, hshort]
        exact hlong _
    · simp [quoteFor, hc]
  · -- what is written of any other character does not depend on the quotes
    obtain ⟨hsingle, hdouble⟩ := not_or.mp hother
    have hsame : ∀ quote, quote = '\'' ∨ quote = '"' →
        quotedChar plain quote c = quotedChar plain '\'' c := by
      rintro quote (rfl | rfl)
      · rfl
      · simp [quotedChar, hsingle, hdouble]
    rw [hsame _ (quoteFor_eq cs), hsame _ (quoteFor_eq (cs ++ more))]

theorem length_flatMap_le {α β : Type} {f g : α → List β} {items : List α}
    (h : ∀ item ∈ items, (f item).length ≤ (g item).length) :
    (items.flatMap f).length ≤ (items.flatMap g).length := by
  induction items with
  | nil => exact le_rfl
  | cons item rest ih =>
    have hrest := ih fun other hother => h other (List.mem_cons_of_mem item hother)
    rw [List.flatMap_cons, List.flatMap_cons, List.length_append, List.length_append]
    exact Nat.add_le_add (h item List.mem_cons_self) hrest

/-- A text is not written longer than one that it is the beginning of. -/
theorem length_quotedBy_le (hplain : plain '\'' = true) (cs more : List Char) :
    (quotedBy plain cs).length ≤ (quotedBy plain (cs ++ more)).length := by
  have hchars : (cs.flatMap (quotedChar plain (quoteFor cs))).length ≤
      (cs.flatMap (quotedChar plain (quoteFor (cs ++ more)))).length :=
    length_flatMap_le fun _ hc => length_quotedChar_le hplain hc more
  simp only [quotedBy, List.flatMap_append, List.length_cons, List.length_append, List.length_nil]
  omega

end Lifecycle.Text
