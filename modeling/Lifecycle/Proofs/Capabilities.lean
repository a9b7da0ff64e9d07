import Lifecycle.Proofs.Table
import Lifecycle.Space.Resolver

/-!
# What a probe tells about the candidates

A well-formed answer has an object for each field, with an object for each type that the field has
somewhere (`SpaceFields.wellFormed`). It reports a field with a mark if one of its types that have
values of their own is marked so (`SpaceFields.reports`). The candidates that it reports are the
fields for the use that the mark stands for, and where it reports none of them all candidates are
(`SpaceFields.usedFor_ofAnswer`); what it reports with the other mark does not matter.

Whatever a probe ends with, the fields for a use are some candidates in their order, and all of them
rather than none (`SpaceFields.exists_usedFor_ofOutcome`, `Resolver.chosen_ofOutcome`).
-/

namespace Lifecycle

variable {candidates : List String} {answer : Json}

namespace SpaceFields

/-! ### Marked candidates -/

/-- The candidates that pass a test, or all of them if none does. -/
def passingOrAll (candidates : List String) (test : String → Bool) : List String :=
  if candidates.filter test = [] then candidates else candidates.filter test

theorem markedOrAll_map (candidates : List String) (test : String → Bool) :
    markedOrAll candidates (candidates.map test) = passingOrAll candidates test := by
  have hmarked : ((candidates.zip (candidates.map test)).filter (·.2)).map (·.1) =
      candidates.filter test := by
    have hzip : candidates.zip (candidates.map test) = candidates.map fun field =>
        (field, test field) := by
      rw [List.zip_eq_zipWith, List.zipWith_map_right, List.zipWith_self]
    rw [hzip, List.filter_map, List.map_map]
    exact List.map_id _
  rw [markedOrAll, hmarked, passingOrAll]
  cases candidates.filter test <;> rfl

/-- A candidate is among those that pass a test or are all, if it passes or no other one does. -/
theorem mem_passingOrAll_iff {test : String → Bool} {field : String} (h : field ∈ candidates) :
    field ∈ passingOrAll candidates test ↔
      test field = true ∨ ∀ other ∈ candidates, test other = false := by
  rw [passingOrAll]
  split
  · rename_i hnone
    have hfails : ∀ other ∈ candidates, test other = false := by
      simpa using List.filter_eq_nil_iff.mp hnone
    exact ⟨fun _ => .inr hfails, fun _ => h⟩
  · rename_i hsome
    rw [List.mem_filter]
    refine ⟨fun hpasses => .inl hpasses.2, fun hpasses => ⟨h, hpasses.resolve_right ?_⟩⟩
    intro hfails
    exact hsome (List.filter_eq_nil_iff.mpr fun other hother => by simp [hfails other hother])

theorem markedOrAll_ne_nil (h : candidates ≠ []) (marked : List Bool) :
    markedOrAll candidates marked ≠ [] := by
  unfold markedOrAll
  split
  · exact h
  · assumption

theorem map_fst_zip_sublist {α β : Type} (xs : List α) (ys : List β) :
    ((xs.zip ys).map Prod.fst).Sublist xs := by
  induction xs generalizing ys with
  | nil => exact List.Sublist.refl _
  | cons x rest ih =>
    cases ys with
    | nil => exact List.nil_sublist _
    | cons y more => exact (ih more).cons_cons x

theorem markedOrAll_sublist (candidates : List String) (marked : List Bool) :
    (markedOrAll candidates marked).Sublist candidates := by
  unfold markedOrAll
  split
  · exact List.Sublist.refl _
  · exact (List.filter_sublist.map Prod.fst).trans (map_fst_zip_sublist candidates marked)

/-! ### Answers -/

/-- Whether a value is an object and all its values pass a test. -/
def isObjectOf (test : Json → Bool) : Json → Bool
  | .object fields => fields.all fun entry => test entry.2
  | _ => false

/-- Whether an answer has an object for each field, and in it an object for each type. -/
def wellFormed (answer : Json) : Bool := isObjectOf (isObjectOf (isObjectOf fun _ => true)) answer

/-- Whether one of the types of a field has a mark that counts as given. Types of fields that hold
other fields are passed over. -/
def marks (types : Table Json) (mark : String) : Bool :=
  types.any fun entry =>
    entry.1 != "object" && entry.1 != "nested" && (entry.2.get? mark).any Json.truthy

/-- Whether an answer reports a field with a mark. -/
def reports (answer : Json) (mark field : String) : Bool :=
  match answer.get? field with
  | some (.object types) => marks types mark
  | _ => false

theorem exists_of_isObjectOf {test : Json → Bool} {value : Json}
    (h : isObjectOf test value = true) :
    ∃ fields, value = .object fields ∧ ∀ entry ∈ fields, test entry.2 = true := by
  cases value with
  | object fields => exact ⟨fields, rfl, List.all_eq_true.mp h⟩
  | _ => cases h

theorem tableOf?_object (fields : Table Json) : tableOf? (.object fields) = some fields := by
  cases fields <;> rfl

/-- Of descriptions that are objects some are marked or none. -/
theorem someMarked?_of_objects {descriptions : List Json}
    (h : ∀ description ∈ descriptions, ∃ fields, description = .object fields) (mark : String) :
    someMarked? mark descriptions =
      some (descriptions.any fun description => (description.get? mark).any Json.truthy) := by
  induction descriptions with
  | nil => rfl
  | cons description rest ih =>
    obtain ⟨fields, rfl⟩ := h description List.mem_cons_self
    have hmark : (Json.under fields mark).truthy =
        ((Json.object fields).get? mark).any Json.truthy := by
      rw [Json.under, Json.get?]
      cases Table.get? fields mark <;> rfl
    rw [someMarked?, tableOf?_object, List.any_cons, ← hmark]
    cases hfirst : (Json.under fields mark).truthy with
    | true => simp [hfirst]
    | false => simpa [hfirst] using ih fun other hother => h other (List.mem_cons_of_mem _ hother)

/-- The descriptions under types with values of their own are marked as the types are. -/
theorem someMarked?_concrete {types : Table Json}
    (h : ∀ entry ∈ types, isObjectOf (fun _ => true) entry.2 = true) (mark : String) :
    someMarked? mark ((types.filter fun entry => !compositeTypes.contains entry.1).map (·.2)) =
      some (marks types mark) := by
  have hobjects : ∀ description ∈
      (types.filter fun entry => !compositeTypes.contains entry.1).map (·.2),
      ∃ fields, description = .object fields := by
    intro description hdescription
    obtain ⟨entry, hentry, rfl⟩ := List.mem_map.mp hdescription
    obtain ⟨fields, hfields, -⟩ := exists_of_isObjectOf (h entry (List.mem_of_mem_filter hentry))
    exact ⟨fields, hfields⟩
  have hcomposite : ∀ type : String,
      (!compositeTypes.contains type) = (type != "object" && type != "nested") := by
    intro type
    rw [Bool.eq_iff_iff]
    simp [compositeTypes]
  rw [someMarked?_of_objects hobjects, List.any_map, List.any_filter, marks]
  simp only [hcomposite, Function.comp_apply]

/-- What can be done with a field is what a well-formed answer reports. -/
theorem usable?_of_wellFormed {fields : Table Json} (h : wellFormed (.object fields) = true)
    (field : String) :
    usable? fields field = some (reports (.object fields) "searchable" field,
      reports (.object fields) "aggregatable" field) := by
  obtain ⟨_, hfields, htypes⟩ := exists_of_isObjectOf h
  cases hfields
  rw [usable?, concrete?, Json.under, reports, reports, Json.get?]
  cases hvalue : Table.get? fields field with
  | none => rfl
  | some value =>
    obtain ⟨types, hobject, hdescriptions⟩ :=
      exists_of_isObjectOf (htypes (field, value) (Table.mem_of_get? hvalue))
    obtain rfl : value = .object types := hobject
    rw [Option.getD_some, tableOf?_object]
    show (do
      let searchable ← someMarked? "searchable" _
      let aggregatable ← someMarked? "aggregatable" _
      pure (searchable, aggregatable)) = _
    rw [someMarked?_concrete hdescriptions, someMarked?_concrete hdescriptions]
    rfl

/-- The fields by what can be done with the candidates. -/
theorem ofAnswer_of_uses {fields : Table Json} {uses : String → Bool × Bool}
    (h : ∀ field ∈ candidates, usable? fields field = some (uses field)) :
    ofAnswer candidates (.object fields) =
      ⟨passingOrAll candidates fun field => (uses field).1,
        passingOrAll candidates fun field => (uses field).2⟩ := by
  have hall : candidates.mapM (usable? fields) = some (candidates.map uses) := by
    induction candidates with
    | nil => rfl
    | cons field rest ih =>
      rw [List.mapM_cons, h field List.mem_cons_self,
        ih fun other hother => h other (List.mem_cons_of_mem _ hother)]
      rfl
  have hanswer : ofAnswer? candidates (.object fields) =
      some ⟨markedOrAll candidates ((candidates.map uses).map (·.1)),
        markedOrAll candidates ((candidates.map uses).map (·.2))⟩ := by
    rw [ofAnswer?, Json.fields?]
    show (do
      let uses ← candidates.mapM (usable? fields)
      pure (SpaceFields.mk _ _)) = _
    rw [hall]
    rfl
  rw [ofAnswer, hanswer, Option.getD_some, List.map_map, List.map_map]
  exact congrArg₂ SpaceFields.mk (markedOrAll_map ..) (markedOrAll_map ..)

/-! ### Uses -/

/-- What the fields of an index are used for. -/
inductive Use where
  | search
  | aggregate
  deriving DecidableEq, Repr

/-- How an answer marks the fields that can be used so. -/
def Use.mark : Use → String
  | .search => "searchable"
  | .aggregate => "aggregatable"

def usedFor (fields : SpaceFields) : Use → List String
  | .search => fields.search
  | .aggregate => fields.aggregate

/-- The fields by a well-formed answer are the candidates that it reports, or all where it reports
none. -/
theorem usedFor_ofAnswer (h : wellFormed answer = true) (candidates : List String) (use : Use) :
    (ofAnswer candidates answer).usedFor use =
      passingOrAll candidates (reports answer use.mark) := by
  obtain ⟨fields, rfl, -⟩ := exists_of_isObjectOf h
  rw [ofAnswer_of_uses fun field _ => usable?_of_wellFormed h field]
  cases use <;> rfl

/-- Whatever a probe ends with, the fields are candidates that are marked in some way, or all. -/
theorem exists_usedFor_ofOutcome (candidates : List String) (outcome : Except Fault Json)
    (use : Use) : ∃ marked,
      (Resolver.ofOutcome candidates outcome).usedFor use = markedOrAll candidates marked := by
  -- where nothing is marked all candidates are
  have hall : (fallback candidates).usedFor use = markedOrAll candidates [] := by
    rw [markedOrAll, List.zip_nil_right]
    cases use <;> rfl
  cases outcome with
  | error fault => exact ⟨[], hall⟩
  | ok answer =>
    rw [Resolver.ofOutcome, ofAnswer]
    cases hanswer : ofAnswer? candidates answer with
    | none => exact ⟨[], hall⟩
    | some fields =>
      rw [ofAnswer?] at hanswer
      obtain ⟨told, -, hanswer⟩ := Option.bind_eq_some_iff.mp hanswer
      obtain ⟨uses, -, hanswer⟩ := Option.bind_eq_some_iff.mp hanswer
      cases hanswer
      cases use <;> exact ⟨_, rfl⟩

theorem usedFor_ofOutcome_ne_nil (h : candidates ≠ []) (outcome : Except Fault Json) (use : Use) :
    (Resolver.ofOutcome candidates outcome).usedFor use ≠ [] := by
  obtain ⟨marked, hmarked⟩ := exists_usedFor_ofOutcome candidates outcome use
  rw [hmarked]
  exact markedOrAll_ne_nil h marked

theorem usedFor_ofOutcome_sublist (candidates : List String) (outcome : Except Fault Json)
    (use : Use) : ((Resolver.ofOutcome candidates outcome).usedFor use).Sublist candidates := by
  obtain ⟨marked, hmarked⟩ := exists_usedFor_ofOutcome candidates outcome use
  rw [hmarked]
  exact markedOrAll_sublist candidates marked

end SpaceFields

namespace Resolver

open SpaceFields (reports wellFormed)

/-- Some of the candidates are chosen by what a probe ends with: at least one, in the order of the
candidates, and by a mark. -/
structure Chosen (candidates : List String) (outcome : Except Fault Json) (mark : String)
    (chosen : List String) : Prop where
  ne_nil : chosen ≠ []
  sublist : chosen.Sublist candidates
  /-- By a well-formed answer they are the candidates that it reports, or all if it reports none. -/
  reported : ∀ answer, outcome = .ok answer → wellFormed answer = true →
    ∀ field ∈ candidates, field ∈ chosen ↔
      reports answer mark field = true ∨ ∀ other ∈ candidates, reports answer mark other = false
  /-- By a fault all are. -/
  failed : ∀ fault, outcome = .error fault → chosen = candidates

/-- Whatever a probe ends with, the fields for either use are chosen by its own mark. -/
theorem chosen_ofOutcome (h : candidates ≠ []) (outcome : Except Fault Json)
    (use : SpaceFields.Use) :
    Chosen candidates outcome use.mark ((ofOutcome candidates outcome).usedFor use) := by
  refine ⟨SpaceFields.usedFor_ofOutcome_ne_nil h outcome use,
    SpaceFields.usedFor_ofOutcome_sublist candidates outcome use, ?_, ?_⟩
  · rintro answer rfl hanswer field hfield
    rw [ofOutcome, SpaceFields.usedFor_ofAnswer hanswer]
    exact SpaceFields.mem_passingOrAll_iff hfield
  · rintro fault rfl
    cases use <;> rfl

end Resolver

end Lifecycle
