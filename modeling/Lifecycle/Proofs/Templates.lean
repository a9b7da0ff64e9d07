import Mathlib.Data.List.Basic
import Lifecycle.Proofs.Quoting
import Lifecycle.Text.Template

/-!
# Rendered templates

A template is read once into its parts (`Template.partsWithin`), of which both its fields and what
it renders to are told: `fieldsWithin_eq`, `renderWithin_of_parts`. A template renders exactly if
each of its fields does (`exists_renderWithin_iff`). How a field shows a value is told by its
conversion and its layout alone, if the layout holds no fields (`Field.shows`,
`renderField_of_value`).

Whether what is rendered tells the value is a question about each field: a field may view the same
whatever the value is (`Fixed`), or it may be `Telling`, so that another text behind it does no
harm. If all fields are one of the two, the first telling one settles the value
(`eq_of_flatMap_eq`). A text as it is and a quoted one are telling.
-/

namespace Lifecycle.Text

/-! ### Texts that tell a value -/

/-- What is shown is the same for all values. -/
def Fixed (view : List Char → List Char) : Prop := ∀ cs ds, view cs = view ds

/-- What is shown of a value in front of some text tells the value, unless one value is the
beginning of the other and has more text behind it. -/
structure Telling (view : List Char → List Char) : Prop where
  /-- No less is shown of a longer value. -/
  grows : ∀ cs more, (view cs).length ≤ (view (cs ++ more)).length
  ends : ∀ {cs ds x y}, view cs ++ x = view ds ++ y →
    cs = ds ∨ (∃ more, ds = cs ++ more ∧ y.length < x.length) ∨
      ∃ more, cs = ds ++ more ∧ x.length < y.length

theorem Telling.behind {view : List Char → List Char} (h : Telling view) (literal : List Char) :
    Telling fun cs => literal ++ view cs where
  grows cs more := by
    rw [List.length_append, List.length_append]
    exact Nat.add_le_add_left (h.grows cs more) _
  ends heq := by
    rw [List.append_assoc, List.append_assoc] at heq
    exact h.ends (List.append_cancel_left heq)

theorem telling_itself : Telling fun cs => cs where
  grows cs more := by
    rw [List.length_append]
    exact Nat.le_add_right _ _
  ends {cs ds x y} heq := by
    rcases List.append_eq_append_iff.mp heq with ⟨more, hds, hx⟩ | ⟨more, hcs, hy⟩
    · cases more with
      | nil => exact .inl (by simpa using hds.symm)
      | cons c more =>
        refine .inr (.inl ⟨c :: more, hds, ?_⟩)
        rw [hx, List.length_append, List.length_cons]
        omega
    · cases more with
      | nil => exact .inl (by simpa using hcs)
      | cons c more =>
        refine .inr (.inr ⟨c :: more, hcs, ?_⟩)
        rw [hy, List.length_append, List.length_cons]
        omega

theorem telling_quotedBy {plain : Char → Bool} (hplain : plain '\'' = true) :
    Telling (quotedBy plain) where
  grows := length_quotedBy_le hplain
  ends heq := .inl (quotedBy_append heq).1

section

variable {α : Type} {view : α → List Char → List Char} {items : List α}

theorem length_shown_le (h : ∀ item ∈ items, Fixed (view item) ∨ Telling (view item))
    (cs more : List Char) :
    (items.flatMap (view · cs)).length ≤ (items.flatMap (view · (cs ++ more))).length := by
  refine length_flatMap_le fun item hitem => ?_
  rcases h item hitem with hfixed | htelling
  · rw [hfixed cs (cs ++ more)]
  · exact htelling.grows cs more

/-- What is shown by all items tells the value, if one of them is telling and the others are at
least fixed. -/
theorem eq_of_flatMap_eq (h : ∀ item ∈ items, Fixed (view item) ∨ Telling (view item))
    (hsome : ∃ item ∈ items, Telling (view item)) {cs ds : List Char}
    (heq : items.flatMap (view · cs) = items.flatMap (view · ds)) : cs = ds := by
  induction items with
  | nil =>
    obtain ⟨_, hmem, -⟩ := hsome
    cases hmem
  | cons item rest ih =>
    have hrest : ∀ other ∈ rest, Fixed (view other) ∨ Telling (view other) :=
      fun other hother => h other (List.mem_cons_of_mem item hother)
    rw [List.flatMap_cons, List.flatMap_cons] at heq
    by_cases htelling : Telling (view item)
    · -- behind a value that goes on in the other one there would stand more text
      rcases htelling.ends heq with hsame | ⟨more, hds, hlt⟩ | ⟨more, hcs, hlt⟩
      · exact hsame
      · have hle := length_shown_le hrest cs more
        rw [hds] at hlt
        omega
      · have hle := length_shown_le hrest ds more
        rw [hcs] at hlt
        omega
    · have hfixed := (h item List.mem_cons_self).resolve_right htelling
      rw [hfixed cs ds] at heq
      refine ih hrest ?_ (List.append_cancel_left heq)
      obtain ⟨other, hmem, hother⟩ := hsome
      rcases List.mem_cons.mp hmem with rfl | hmem
      · exact absurd hother htelling
      · exact ⟨other, hmem, hother⟩

end

namespace Template

/-! ### Parts -/

/-- The text up to a field and the field, or the text up to the end or behind a doubled brace. -/
structure Part where
  literal : List Char
  field : Option Field

/-- The parts of a template, in at most `fuel` steps. -/
def partsWithin : Nat → List Char → Except TemplateFault (List Part)
  | 0, _ => .ok []
  | _ + 1, [] => .ok []
  | fuel + 1, cs => do
    let (literal, found, rest) ← step cs
    let more ← partsWithin fuel rest
    pure (⟨literal, found⟩ :: more)

/-- The fields of some parts. -/
def fieldsOf (parts : List Part) : List Field := parts.flatMap (·.field.toList)

theorem mem_fieldsOf {parts : List Part} {field : Field} :
    field ∈ fieldsOf parts ↔ ∃ part ∈ parts, part.field = some field := by
  simp [fieldsOf]

theorem forall_mem_fieldsOf_iff {parts : List Part} {holds : Field → Prop} :
    (∀ field ∈ fieldsOf parts, holds field) ↔
      ∀ part ∈ parts, ∀ field ∈ part.field, holds field := by
  simp only [mem_fieldsOf]
  exact ⟨fun h part hpart field hfield => h field ⟨part, hpart, hfield⟩,
    fun h field ⟨part, hpart, hfield⟩ => h part hpart field hfield⟩

theorem fieldsWithin_eq (fuel : Nat) (cs : List Char) :
    fieldsWithin fuel cs = (partsWithin fuel cs).map fieldsOf := by
  induction fuel generalizing cs with
  | zero => rfl
  | succ fuel ih =>
    cases cs with
    | nil => rfl
    | cons c cs =>
      rw [fieldsWithin, partsWithin]
      cases step (c :: cs) with
      | error fault => rfl
      | ok found =>
        obtain ⟨literal, field, rest⟩ := found
        simp only [bind, Except.bind, ih]
        cases partsWithin fuel rest <;> rfl
      all_goals simp

theorem exists_parts {fuel : Nat} {cs : List Char} {found : List Field}
    (h : fieldsWithin fuel cs = .ok found) :
    ∃ parts, partsWithin fuel cs = .ok parts ∧ fieldsOf parts = found := by
  rw [fieldsWithin_eq] at h
  cases hparts : partsWithin fuel cs with
  | error fault =>
    rw [hparts] at h
    cases h
  | ok parts =>
    rw [hparts] at h
    exact ⟨parts, rfl, Except.ok.inj h⟩

/-- A part with the value of its field in place. -/
def Part.rendered (inner : List Char → Except TemplateFault (List Char)) (arguments : Table String)
    (part : Part) : Except TemplateFault (List Char) := do
  let shown ← match part.field with
    | some field => renderField inner arguments field
    | none => .ok []
  pure (part.literal ++ shown)

variable {inner : List Char → Except TemplateFault (List Char)} {arguments : Table String}

/-- A template is rendered part by part. -/
theorem renderWithin_of_parts {fuel : Nat} {cs : List Char} {parts : List Part}
    (h : partsWithin fuel cs = .ok parts) :
    renderWithin inner arguments fuel cs =
      (parts.mapM (Part.rendered inner arguments)).map List.flatten := by
  induction fuel generalizing cs parts with
  | zero =>
    cases h
    rfl
  | succ fuel ih =>
    cases cs with
    | nil =>
      cases h
      rfl
    | cons c cs =>
      simp only [partsWithin] at h
      simp only [renderWithin]
      cases hstep : step (c :: cs) with
      | error fault =>
        rw [hstep] at h
        cases h
      | ok found =>
        obtain ⟨literal, field, rest⟩ := found
        rw [hstep] at h
        cases hmore : partsWithin fuel rest with
        | error fault =>
          simp [hmore, bind, Except.bind] at h
        | ok more =>
          simp only [hmore, bind, Except.bind, pure, Except.pure] at h
          cases h
          rw [List.mapM_cons, Part.rendered]
          simp only [bind, Except.bind, pure, Except.pure]
          rw [ih hmore]
          -- a field that cannot be shown ends both before they come to the rest
          cases field with
          | none => cases more.mapM (Part.rendered inner arguments) <;> simp [Except.map]
          | some field =>
            cases hfield : renderField inner arguments field with
            | error fault => simp [hfield, Except.map]
            | ok shown =>
              cases more.mapM (Part.rendered inner arguments) <;> simp [hfield, Except.map]

/-- Values can be had one after another exactly if each of them can be had. -/
theorem exists_mapM_iff {ε β γ : Type} {read : β → Except ε γ} {items : List β} :
    (∃ results, items.mapM read = .ok results) ↔
      ∀ item ∈ items, ∃ result, read item = .ok result := by
  induction items with
  | nil => simp [pure, Except.pure]
  | cons item rest ih =>
    rw [List.forall_mem_cons, ← ih, List.mapM_cons]
    cases read item with
    | error fault => simp [bind, Except.bind]
    | ok result => cases rest.mapM read <;> simp [bind, Except.bind, pure, Except.pure]

/-- What is made of each value can be made when all of them have been had. -/
theorem mapM_eq_map_mapM {ε β γ δ : Type} {read : β → Except ε δ} {first : β → Except ε γ}
    {next : γ → δ} {items : List β} (h : ∀ item ∈ items, read item = (first item).map next) :
    items.mapM read = (items.mapM first).map (List.map next) := by
  induction items with
  | nil => rfl
  | cons item rest ih =>
    rw [List.mapM_cons, List.mapM_cons, h item List.mem_cons_self,
      ih fun other hother => h other (List.mem_cons_of_mem _ hother)]
    cases first item with
    | error fault => rfl
    | ok result => cases rest.mapM first <;> rfl

theorem exists_rendered_iff {part : Part} :
    (∃ shown, part.rendered inner arguments = .ok shown) ↔
      ∀ field ∈ part.field, ∃ shown, renderField inner arguments field = .ok shown := by
  obtain ⟨literal, field⟩ := part
  cases field with
  | none => simp [Part.rendered, pure, Except.pure, bind, Except.bind]
  | some field =>
    cases h : renderField inner arguments field <;>
      simp [Part.rendered, h, pure, Except.pure, bind, Except.bind]

/-- A template is rendered exactly if all its fields are. -/
theorem exists_renderWithin_iff {fuel : Nat} {cs : List Char} {fields : List Field}
    (h : fieldsWithin fuel cs = .ok fields) :
    (∃ shown, renderWithin inner arguments fuel cs = .ok shown) ↔
      ∀ field ∈ fields, ∃ shown, renderField inner arguments field = .ok shown := by
  obtain ⟨parts, hparts, rfl⟩ := exists_parts h
  have hmap : (∃ shown, renderWithin inner arguments fuel cs = .ok shown) ↔
      ∃ results, parts.mapM (Part.rendered inner arguments) = .ok results := by
    rw [renderWithin_of_parts hparts]
    cases parts.mapM (Part.rendered inner arguments) <;> simp [Except.map]
  rw [hmap, exists_mapM_iff, forall_mem_fieldsOf_iff]
  simp only [exists_rendered_iff]

/-! ### Fields -/

/-- How a conversion shows a value. -/
def conversionOf : Option Char → Except TemplateFault (List Char → List Char)
  | none | some 's' => .ok fun value => value
  | some 'r' => .ok (quotedBy isPrintable)
  | some 'a' => .ok (quotedBy fun c => 0x20 ≤ c.toNat && c.toNat < 0x7F)
  | some c => .error (.malformed ("Unknown conversion specifier " ++ shown c))

theorem converted_eq (conversion : Option Char) (value : List Char) :
    converted conversion value = (conversionOf conversion).map (· value) := by
  unfold converted conversionOf
  split <;> simp [Except.map, quoted, quotedAscii]

/-- The layout that a description stands for, if it is one for texts. -/
def layoutOf (spec : List Char) : Except TemplateFault Layout := do
  if spec.isEmpty then return {}
  let layout ← Layout.read spec
  layout.check
  pure layout

theorem Layout.apply_of_whole {layout : Layout} (hprecision : layout.precision = none)
    (hwidth : layout.width.getD 0 = 0) (value : List Char) : layout.apply value = value := by
  simp [Layout.apply, hprecision, hwidth]

theorem laidOut_eq (spec value : List Char) :
    laidOut spec value = (layoutOf spec).map (·.apply value) := by
  unfold laidOut layoutOf
  cases spec with
  | nil => exact congrArg Except.ok (Layout.apply_of_whole rfl rfl value).symm
  | cons c spec =>
    cases Layout.read (c :: spec) with
    | error fault => rfl
    | ok layout =>
      cases hcheck : layout.check <;>
        simp [hcheck, bind, Except.bind, pure, Except.pure, Except.map]

/-- How a field whose layout holds no fields shows a value. -/
def Field.shows (field : Field) : Except TemplateFault (List Char → List Char) := do
  let conversion ← conversionOf field.conversion
  let layout ← layoutOf field.layout
  pure fun value => layout.apply (conversion value)

theorem renderField_of_value {field : Field} {value : List Char}
    (hvalue : valueOf arguments field.name = .ok value) (hnested : field.nested = false) :
    renderField inner arguments field = field.shows.map (· value) := by
  simp only [renderField, hvalue, hnested, converted_eq, laidOut_eq, Field.shows, bind, Except.bind]
  cases conversionOf field.conversion with
  | error fault => rfl
  | ok conversion => cases layoutOf field.layout <;> rfl

/-- The layout of a field neither cuts a value nor fills it up. -/
def Field.Whole (field : Field) : Prop :=
  ∃ layout, layoutOf field.layout = .ok layout ∧ layout.precision = none ∧
    layout.width.getD 0 = 0

theorem exists_conversionOf_iff {conversion : Option Char} :
    (∃ view, conversionOf conversion = .ok view) ↔
      conversion ∈ [none, some 's', some 'r', some 'a'] := by
  unfold conversionOf
  split <;> simp_all

theorem Field.shows_eq_ok_iff {field : Field} {view : List Char → List Char} :
    field.shows = .ok view ↔ ∃ conversion layout,
      conversionOf field.conversion = .ok conversion ∧ layoutOf field.layout = .ok layout ∧
        (fun value => layout.apply (conversion value)) = view := by
  rw [shows]
  cases conversionOf field.conversion with
  | error fault => simp [bind, Except.bind]
  | ok conversion =>
    cases layoutOf field.layout <;> simp [bind, Except.bind, pure, Except.pure]

theorem exists_shows_iff {field : Field} :
    (∃ view, field.shows = .ok view) ↔
      field.conversion ∈ [none, some 's', some 'r', some 'a'] ∧
        ∃ layout, layoutOf field.layout = .ok layout := by
  simp only [← exists_conversionOf_iff, Field.shows_eq_ok_iff]
  constructor
  · rintro ⟨_, conversion, layout, hconversion, hlayout, -⟩
    exact ⟨⟨conversion, hconversion⟩, layout, hlayout⟩
  · rintro ⟨⟨conversion, hconversion⟩, layout, hlayout⟩
    exact ⟨_, conversion, layout, hconversion, hlayout, rfl⟩

theorem telling_conversionOf {conversion : Option Char} {view : List Char → List Char}
    (h : conversionOf conversion = .ok view) : Telling view := by
  unfold conversionOf at h
  split at h
  · cases h
    exact telling_itself
  · cases h
    exact telling_itself
  · cases h
    exact telling_quotedBy (by decide)
  · cases h
    exact telling_quotedBy (by decide)
  · cases h

theorem Field.Whole.telling {field : Field} (h : field.Whole) {view : List Char → List Char}
    (hview : field.shows = .ok view) : Telling view := by
  obtain ⟨layout, hlayout, hprecision, hwidth⟩ := h
  obtain ⟨conversion, found, hconversion, hfound, rfl⟩ := shows_eq_ok_iff.mp hview
  obtain rfl : layout = found := Except.ok.inj (hlayout.symm.trans hfound)
  simp only [Layout.apply_of_whole hprecision hwidth]
  exact telling_conversionOf hconversion

/-- A layout that cuts values or fills them up shows two of them alike. -/
theorem Layout.exists_same {layout : Layout}
    (h : ¬(layout.precision = none ∧ layout.width.getD 0 = 0)) :
    ∃ cs ds, cs ≠ ds ∧ layout.apply cs = layout.apply ds := by
  cases hprecision : layout.precision with
  | some most =>
    -- they differ behind the characters that are kept
    refine ⟨List.replicate most 'a' ++ ['a'], List.replicate most 'a' ++ ['b'], by simp, ?_⟩
    simp [Layout.apply, hprecision, List.take_append]
  | none =>
    -- one consists of a character of the filling
    have hwidth : 0 < layout.width.getD 0 := Nat.pos_of_ne_zero fun hzero => h ⟨hprecision, hzero⟩
    have hfilled : ∀ value, layout.apply (List.replicate value layout.fill) =
        List.replicate (max value (layout.width.getD 0)) layout.fill := by
      intro value
      simp only [Layout.apply, hprecision, Option.map_none, Option.getD_none, List.length_replicate,
        List.replicate_append_replicate]
      congr 1
      split_ifs <;> omega
    refine ⟨List.replicate 0 layout.fill, List.replicate 1 layout.fill, by simp, ?_⟩
    rw [hfilled, hfilled, Nat.max_eq_right (Nat.zero_le _), Nat.max_eq_right hwidth]

theorem Field.exists_same {field : Field} (hunquoted : field.conversion ∈ [none, some 's'])
    {view : List Char → List Char} (hview : field.shows = .ok view) (h : ¬field.Whole) :
    ∃ cs ds, cs ≠ ds ∧ view cs = view ds := by
  obtain ⟨conversion, layout, hconversion, hlayout, rfl⟩ := shows_eq_ok_iff.mp hview
  have hitself : conversionOf field.conversion = .ok fun value => value := by
    simp only [List.mem_cons, List.not_mem_nil, or_false] at hunquoted
    rcases hunquoted with h | h <;> rw [h] <;> rfl
  obtain rfl := Except.ok.inj (hitself.symm.trans hconversion)
  exact Layout.exists_same fun hwhole => h ⟨layout, hlayout, hwhole⟩

end Template

end Lifecycle.Text
