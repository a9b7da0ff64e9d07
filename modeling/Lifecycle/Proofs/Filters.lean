import Lifecycle.Proofs.Scoping
import Lifecycle.Proofs.Table

/-!
# A filter added to a query

A query is one clause, and compound queries have queries under `must`, `filter` and `should`, to any
depth (`Query.Nested`). Evaluating one is a fault when a clause that is reached has not the shape it
should have; queries whose clauses are well-formed have an answer on every document
(`Query.Nested.answers`).

Scoping a query adds a filter to it: to the filters it has, where it is a compound query, and else
beside it. Clauses are looked at in order, and the filter that is added may hide a fault of those
behind it. It hides and adds nothing else: what is found is what the query finds and the filter
finds, and where the query has an answer, so has the scoped one (`Scope.Restricts`,
`Scope.restricts_apply`).
-/

namespace Lifecycle

namespace Query

variable {d : Subject} {inner : Bool} {query : Json}

/-! ### Tests in sequence -/

section

variable {first second : Except Fault Bool}

/-- Two tests, of which the second is made if the first holds: both hold. -/
theorem andM_eq_true_iff :
    andM first second = .ok true ↔ first = .ok true ∧ second = .ok true := by
  rcases first with _ | (_ | _) <;> simp [andM, bind, Except.bind, pure, Except.pure, toBool]

/-- Two tests have an answer if the second has one, as far as it is made. -/
theorem exists_andM_iff :
    (∃ found, andM first second = .ok found) ↔
      first = .ok false ∨ first = .ok true ∧ ∃ found, second = .ok found := by
  rcases first with _ | (_ | _) <;> simp [andM, bind, Except.bind, pure, Except.pure, toBool]

end

/-! ### Answers -/

/-- Whether a query finds a document. One that is a fault on it does not. -/
def finds (d : Subject) (query : Json) : Bool :=
  match holds d false query with
  | .ok found => found
  | .error _ => false

/-- A query is no fault on a document. -/
def Answers (d : Subject) (query : Json) : Prop := ∃ found, holds d false query = .ok found

theorem finds_eq_true_iff : finds d query = true ↔ holds d false query = .ok true := by
  rw [finds]
  cases holds d false query <;> simp

theorem finds_of_holds {found : Bool} (h : holds d false query = .ok found) :
    finds d query = found := by
  rw [finds, h]

/-- The fault of a clause that names no field is all that tells a query within another one from the
outermost one. -/
theorem bind_soleField_inner {α : Type} {clause : Json} {next : String × Json → Except Fault α}
    {value : α} (other : Bool) :
    (soleField inner clause >>= next) = .ok value ↔
      (soleField other clause >>= next) = .ok value := by
  rcases clause with _ | _ | _ | _ | _ | _ | (_ | _) <;> simp [soleField, bind, Except.bind]

/-- A query within another one has the same answers as the outermost one. -/
theorem holds_inner {found : Bool} (other : Bool) :
    holds d inner query = .ok found ↔ holds d other query = .ok found := by
  cases query with
  | object fields =>
    rw [holds, holds]
    split
    · rfl
    split
    · exact bind_soleField_inner other
    split
    · exact bind_soleField_inner other
    split
    · rfl
    split
    · exact bind_soleField_inner other
    · rfl
  | _ => rfl

/-! ### Compound queries -/

/-- The queries under a key of a compound query; none if there is something else than a list. -/
def queriesUnder? (clauses : Table Json) (key : String) : Option (List Json) :=
  match clauses.get? key with
  | none => some []
  | some (.list queries) => some queries
  | some _ => none

/-- Whether enough of the queries under `should` find a document, if there are any. -/
def enough (d : Subject) (clauses : Table Json) : Except Fault Bool := do
  if !(Json.under clauses "should").truthy then return true
  let count ← countAmong d "should" clauses
  reaches count ((clauses.get? "minimum_should_match").getD (.int 1))

section

variable {clauses : Table Json} {key : String} {queries must filters should : List Json}

theorem allAmong_eq (d : Subject) (key : String) (clauses : Table Json) :
    allAmong d key clauses = ((clauses.get? key).map (allIn d)).getD (.ok true) := by
  induction clauses with
  | nil => rfl
  | cons entry rest ih =>
    obtain ⟨name, value⟩ := entry
    rw [allAmong, Table.get?, ih]
    by_cases h : name = key <;> simp [h, allUnder]

theorem countAmong_eq (d : Subject) (key : String) (clauses : Table Json) :
    countAmong d key clauses = ((clauses.get? key).map (countIn d)).getD (.ok 0) := by
  induction clauses with
  | nil => rfl
  | cons entry rest ih =>
    obtain ⟨name, value⟩ := entry
    rw [countAmong, Table.get?, ih]
    by_cases h : name = key <;> simp [h, countUnder]

theorem allAmong_of_queriesUnder (h : queriesUnder? clauses key = some queries) :
    allAmong d key clauses = allHold d queries := by
  rw [allAmong_eq]
  unfold queriesUnder? at h
  split at h
  · rename_i hnone
    rw [hnone, ← Option.some.inj h]
    rfl
  · rename_i hsome
    rw [hsome, ← Option.some.inj h]
    rfl
  · cases h

theorem itemsOf_of_queriesUnder (h : queriesUnder? clauses key = some queries) :
    itemsOf ((clauses.get? key).getD (.list [])) = .ok queries := by
  unfold queriesUnder? at h
  split at h
  · rename_i hnone
    rw [hnone, ← Option.some.inj h]
    rfl
  · rename_i hsome
    rw [hsome, ← Option.some.inj h]
    rfl
  · cases h

/-- A compound query with lists of queries: all that must find a document do, and enough of those
that should. -/
theorem holds_compound (hmust : queriesUnder? clauses "must" = some must)
    (hfilters : queriesUnder? clauses "filter" = some filters) :
    holds d inner (.object [("bool", .object clauses)]) =
      andM (allHold d must) (andM (allHold d filters) (enough d clauses)) := by
  have hlists : checkLists clauses = .ok () := by
    rw [checkLists, itemsOf_of_queriesUnder hmust, itemsOf_of_queriesUnder hfilters]
    rfl
  show clausesHold d (.object clauses) = _
  rw [clausesHold, hlists, allAmong_of_queriesUnder hmust, allAmong_of_queriesUnder hfilters]
  rcases allHold d must with _ | (_ | _) <;> rcases allHold d filters with _ | (_ | _) <;> rfl

/-- All of some queries and one more. -/
theorem allHold_concat (queries : List Json) (added : Json) :
    allHold d (queries ++ [added]) = andM (allHold d queries) (holds d true added) := by
  induction queries with
  | nil =>
    show allHold d [added] = holds d true added
    rw [allHold]
    rcases holds d true added with _ | (_ | _) <;> rfl
  | cons query rest ih =>
    rw [List.cons_append, allHold, allHold, ih]
    rcases holds d true query with _ | (_ | _) <;> rfl

end

/-! ### Nested queries -/

/-- The names of the clauses that have no queries in them. -/
def simpleNames : List String := ["match_all", "term", "terms", "ids", "wildcard"]

/-- A query with one clause, compound ones with lists of such queries. `formed` says what a clause
of a name has to be. -/
inductive Nested (formed : String → Json → Prop) : Json → Prop
  | simple {name : String} {clause : Json} (known : name ∈ simpleNames)
    (shape : formed name clause) : Nested formed (.object [(name, clause)])
  | compound {clauses : Table Json} {must filters should : List Json}
    (must_eq : queriesUnder? clauses "must" = some must)
    (filters_eq : queriesUnder? clauses "filter" = some filters)
    (should_eq : queriesUnder? clauses "should" = some should)
    (shape : formed "bool" (.object clauses))
    (queries : ∀ query ∈ must ++ filters ++ should, Nested formed query) :
    Nested formed (.object [("bool", .object clauses)])

/-- The clauses that are well-formed: a field with what is said about it, texts for patterns, and a
whole number of queries that should find a document. -/
inductive Formed : String → Json → Prop
  | everything (clause : Json) : Formed "match_all" clause
  | term (field : String) (expected : Json) : Formed "term" (.object [(field, expected)])
  | terms (field : String) (values : List Json) : Formed "terms" (.object [(field, .list values)])
  | ids (values : List Json) : Formed "ids" (.object [("values", .list values)])
  | wildcard (field : String) {options : Table Json}
    (pattern : ∀ value, options.get? "value" = some value → ∃ s, value = .text s) :
    Formed "wildcard" (.object [(field, .object options)])
  | compound {clauses : Table Json}
    (minimum : ∀ value, clauses.get? "minimum_should_match" = some value → ∃ n, value = .int n) :
    Formed "bool" (.object clauses)

/-- A well-formed compound clause wants a whole number of matches, if it says how many. -/
theorem Formed.minimum {name : String} {clause : Json} {clauses : Table Json}
    (h : Formed name clause) (hname : name = "bool") (hclause : clause = .object clauses)
    {value : Json} (hvalue : clauses.get? "minimum_should_match" = some value) :
    ∃ n, value = .int n := by
  cases h with
  | compound hminimum =>
    cases hclause
    exact hminimum value hvalue
  | _ => exact absurd hname (by decide)

/-- A query that may be absent, and else is nested. -/
def Given (formed : String → Json → Prop) (query : Json) : Prop :=
  query.truthy = false ∨ Nested formed query

theorem Nested.mono {formed wider : String → Json → Prop}
    (hwider : ∀ name clause, formed name clause → wider name clause)
    (h : Nested formed query) : Nested wider query := by
  induction h with
  | simple hknown hshape => exact .simple hknown (hwider _ _ hshape)
  | compound hmust hfilters hshould hshape _ ih =>
    exact .compound hmust hfilters hshould (hwider _ _ hshape) ih

theorem Given.mono {formed wider : String → Json → Prop}
    (hwider : ∀ name clause, formed name clause → wider name clause)
    (h : Given formed query) : Given wider query :=
  h.imp_right (·.mono hwider)

theorem exists_allHold {queries : List Json} (h : ∀ query ∈ queries, Answers d query) :
    ∃ found, allHold d queries = .ok found := by
  induction queries with
  | nil => exact ⟨true, rfl⟩
  | cons query rest ih =>
    obtain ⟨first, hfirst⟩ := h query List.mem_cons_self
    rw [allHold, (holds_inner true).mp hfirst]
    cases first with
    | false => exact ⟨false, rfl⟩
    | true => exact ih fun other hother => h other (List.mem_cons_of_mem _ hother)

theorem exists_countHolding {queries : List Json} (h : ∀ query ∈ queries, Answers d query) :
    ∃ count, countHolding d queries = .ok count := by
  induction queries with
  | nil => exact ⟨0, rfl⟩
  | cons query rest ih =>
    obtain ⟨first, hfirst⟩ := h query List.mem_cons_self
    obtain ⟨count, hcount⟩ := ih fun other hother => h other (List.mem_cons_of_mem _ hother)
    rw [countHolding, (holds_inner true).mp hfirst, hcount]
    exact ⟨_, rfl⟩

/-- Whether enough of the queries under `should` find a document is known, if all of them have an
answer and a whole number of them is wanted. -/
theorem exists_enough {clauses : Table Json} {should : List Json}
    (hshould : queriesUnder? clauses "should" = some should)
    (hminimum : ∀ value, clauses.get? "minimum_should_match" = some value → ∃ n, value = .int n)
    (h : ∀ query ∈ should, Answers d query) : ∃ found, enough d clauses = .ok found := by
  have hcount : ∃ count, countAmong d "should" clauses = .ok count := by
    rw [countAmong_eq]
    unfold queriesUnder? at hshould
    split at hshould
    · rename_i hnone
      exact ⟨0, by rw [hnone]; rfl⟩
    · rename_i queries hsome
      obtain rfl : queries = should := Option.some.inj hshould
      obtain ⟨count, hcount⟩ := exists_countHolding h
      exact ⟨count, by rw [hsome]; exact hcount⟩
    · cases hshould
  have hwanted : ∃ n, (clauses.get? "minimum_should_match").getD (.int 1) = .int n := by
    cases hget : clauses.get? "minimum_should_match" with
    | none => exact ⟨1, rfl⟩
    | some value => exact hminimum value hget
  obtain ⟨count, hcount⟩ := hcount
  obtain ⟨n, hn⟩ := hwanted
  rw [enough, hcount, hn]
  cases (Json.under clauses "should").truthy with
  | false => exact ⟨true, rfl⟩
  | true => exact ⟨_, rfl⟩

/-- A simple query whose clause is well-formed has an answer on every document. -/
theorem Formed.answers {name : String} {clause : Json} (h : Formed name clause)
    (hknown : name ∈ simpleNames) (d : Subject) : Answers d (.object [(name, clause)]) := by
  cases h with
  | everything clause => exact ⟨true, rfl⟩
  | term field expected =>
    show ∃ found, termHolds d false (.object [(field, expected)]) = .ok found
    simp only [termHolds, soleField, bind, Except.bind, pure, Except.pure]
    cases searchable d.mapping field <;> cases valueAt? d.mapping d.body field <;>
      exact ⟨_, rfl⟩
  | terms field values =>
    show ∃ found, termsHold d false (.object [(field, .list values)]) = .ok found
    simp only [termsHold, soleField, itemsOf, bind, Except.bind, pure, Except.pure]
    cases searchable d.mapping field <;> cases valueAt? d.mapping d.body field <;>
      exact ⟨_, rfl⟩
  | ids values => exact ⟨_, rfl⟩
  | wildcard field hpattern =>
    rename_i options
    show ∃ found, wildcardHolds d false (.object [(field, .object options)]) = .ok found
    have hmatches : ∀ stored, ∃ found, wildcardMatches stored (.object options) = .ok found := by
      intro stored
      have htext : ∃ s, (options.get? "value").getD (.text "") = .text s := by
        cases hget : options.get? "value" with
        | none => exact ⟨"", rfl⟩
        | some value => exact hpattern value hget
      obtain ⟨s, hs⟩ := htext
      simp only [wildcardMatches, hs]
      cases (Json.under options "case_insensitive").truthy <;> exact ⟨_, rfl⟩
    simp only [wildcardHolds, soleField, bind, Except.bind, pure, Except.pure]
    split
    · exact hmatches _
    · exact ⟨false, rfl⟩
  | compound => exact absurd hknown (by decide)

/-- A query whose clauses are well-formed has an answer on every document. -/
theorem Nested.answers (h : Nested Formed query) (d : Subject) : Answers d query := by
  induction h with
  | simple hknown hshape => exact hshape.answers hknown d
  | compound hmust hfilters hshould hshape _ ih =>
    rename_i clauses must filters should _
    have hall : ∀ queries ⊆ must ++ filters ++ should, ∀ query ∈ queries, Answers d query :=
      fun queries hqueries query hquery => ih query (hqueries hquery)
    have hminimum : ∀ value, clauses.get? "minimum_should_match" = some value →
        ∃ n, value = .int n := fun _ => hshape.minimum rfl rfl
    obtain ⟨first, hfirst⟩ := exists_allHold (hall must (by simp))
    obtain ⟨second, hsecond⟩ := exists_allHold (hall filters (by simp))
    obtain ⟨third, hthird⟩ := exists_enough hshould hminimum (hall should (by simp))
    rw [Answers, holds_compound hmust hfilters, hfirst, hsecond, hthird]
    cases first <;> cases second <;> exact ⟨_, rfl⟩

/-- A query that counts as not given finds every document. -/
theorem holds_of_absent (h : query.truthy = false) (d : Subject) :
    holds d inner query = .ok true := by
  cases query with
  | object fields =>
    have hempty : fields.isEmpty = true := by simpa [Json.truthy] using h
    rw [holds, hempty]
    rfl
  | _ => rw [holds, plainHolds, h]; rfl

/-- A query that is absent, or whose clauses are well-formed, has an answer on every document. -/
theorem Given.answers (h : Given Formed query) (d : Subject) : Answers d query :=
  h.elim (fun habsent => ⟨true, holds_of_absent habsent d⟩) (·.answers d)

end Query

/-! ### Adding a filter -/

namespace Scope

open Query (finds finds_eq_true_iff finds_of_holds Answers queriesUnder?)

/-- A query that finds what another one finds and a filter finds too, and has an answer where the
other one has. -/
structure Restricts (narrow query added : Json) : Prop where
  finds_eq : ∀ d carried, Query.holds d true added = .ok carried →
    finds d narrow = (finds d query && carried)
  answers : ∀ d carried, Query.holds d true added = .ok carried → Answers d query →
    Answers d narrow

section

variable {added : Json} {clauses : Table Json} {must filters should : List Json}

theorem filtersOf_of_queriesUnder (h : queriesUnder? clauses "filter" = some filters) :
    filtersOf clauses = filters := by
  unfold Query.queriesUnder? at h
  unfold filtersOf
  split at h
  · rename_i hnone
    rw [hnone]
    exact Option.some.inj h
  · rename_i hsome
    rw [hsome]
    exact Option.some.inj h
  · cases h

/-- The clauses of a compound query with one more filter. -/
def narrowedClauses (clauses : Table Json) (added : Json) : Table Json :=
  (clauses.remove "filter").put "filter" (.list (filtersOf clauses ++ [added]))

theorem get?_narrowedClauses {key : String} (hkey : key ≠ "filter") :
    (narrowedClauses clauses added).get? key = clauses.get? key := by
  rw [narrowedClauses, Table.get?_put, if_neg (Ne.symm hkey), Table.get?_remove,
    if_neg (Ne.symm hkey)]

theorem queriesUnder_narrowedClauses (hmust : queriesUnder? clauses "must" = some must) :
    queriesUnder? (narrowedClauses clauses added) "must" = some must := by
  rw [← hmust, Query.queriesUnder?, get?_narrowedClauses (by decide), Query.queriesUnder?]

/-- What should find a document is the same with one more filter. -/
theorem enough_narrowedClauses (added : Json) (d : Query.Subject) :
    Query.enough d (narrowedClauses clauses added) = Query.enough d clauses := by
  rw [Query.enough, Query.enough, Query.countAmong_eq, Query.countAmong_eq, Json.under, Json.under,
    get?_narrowedClauses (by decide), get?_narrowedClauses (by decide)]

/-- A compound query with one more filter restricts the compound query. -/
theorem restricts_narrowed (hmust : queriesUnder? clauses "must" = some must)
    (hfilters : queriesUnder? clauses "filter" = some filters) :
    Restricts (narrowed clauses added) (.object [("bool", .object clauses)]) added := by
  have hadded : queriesUnder? (narrowedClauses clauses added) "filter" =
      some (filters ++ [added]) := by
    rw [Query.queriesUnder?, narrowedClauses, Table.get?_put, if_pos rfl,
      filtersOf_of_queriesUnder hfilters]
  have hnarrow : ∀ d, Query.holds d false (narrowed clauses added) =
      andM (Query.allHold d must) (andM (andM (Query.allHold d filters) (Query.holds d true added))
        (Query.enough d clauses)) := by
    intro d
    rw [← enough_narrowedClauses added, ← Query.allHold_concat]
    exact Query.holds_compound (queriesUnder_narrowedClauses hmust) hadded
  constructor
  · intro d carried hcarried
    rw [Bool.eq_iff_iff, Bool.and_eq_true, finds_eq_true_iff, finds_eq_true_iff, hnarrow,
      Query.holds_compound hmust hfilters, hcarried]
    simp only [Query.andM_eq_true_iff, Except.ok.injEq]
    tauto
  · intro d carried hcarried hanswers
    rw [Answers, Query.holds_compound hmust hfilters] at hanswers
    rw [Answers, hnarrow, hcarried]
    rw [Query.exists_andM_iff, Query.exists_andM_iff] at hanswers ⊢
    rcases hanswers with hmust | ⟨hmust, hfilters | ⟨hfilters, hshould⟩⟩
    · exact .inl hmust
    · exact .inr ⟨hmust, .inl (by rw [hfilters]; rfl)⟩
    -- the filter that is added comes before what should find the document
    · rw [hfilters]
      cases carried with
      | false => exact .inr ⟨hmust, .inl rfl⟩
      | true => exact .inr ⟨hmust, .inr ⟨rfl, hshould⟩⟩

end

section

variable {query added : Json}

/-- A filter alone restricts the query that is absent. -/
theorem restricts_alone (habsent : query.truthy = false) :
    Restricts (.object [("bool", .object [("filter", .list [added])])]) query added := by
  have hmust : queriesUnder? [("filter", .list [added])] "must" = some [] := rfl
  have hfilters : queriesUnder? [("filter", .list [added])] "filter" = some ([] ++ [added]) := rfl
  have halone : ∀ d carried, Query.holds d true added = .ok carried →
      Query.holds d false (.object [("bool", .object [("filter", .list [added])])]) =
        .ok carried := by
    intro d carried hcarried
    rw [Query.holds_compound hmust hfilters, Query.allHold_concat, hcarried]
    cases carried <;> rfl
  constructor
  · intro d carried hcarried
    rw [finds_of_holds (halone d carried hcarried),
      finds_of_holds (Query.holds_of_absent habsent d), Bool.true_and]
  · exact fun d carried hcarried _ => ⟨carried, halone d carried hcarried⟩

/-- A query with a filter beside it restricts the query. -/
theorem restricts_beside (query added : Json) :
    Restricts (.object [("bool", .object
      [("must", .list [query]), ("filter", .list [added])])]) query added := by
  have hmust : queriesUnder? [("must", .list [query]), ("filter", .list [added])] "must" =
      some ([] ++ [query]) := rfl
  have hfilters : queriesUnder? [("must", .list [query]), ("filter", .list [added])] "filter" =
      some ([] ++ [added]) := rfl
  have hboth : ∀ d carried, Query.holds d true added = .ok carried →
      Query.holds d false (.object [("bool", .object
        [("must", .list [query]), ("filter", .list [added])])]) =
      andM (Query.holds d true query) (.ok carried) := by
    intro d carried hcarried
    rw [Query.holds_compound hmust hfilters, Query.allHold_concat, Query.allHold_concat, hcarried]
    rcases Query.holds d true query with _ | (_ | _) <;> cases carried <;> rfl
  constructor
  · intro d carried hcarried
    rw [Bool.eq_iff_iff, Bool.and_eq_true, finds_eq_true_iff, finds_eq_true_iff,
      hboth d carried hcarried, Query.andM_eq_true_iff, Query.holds_inner false, Except.ok.injEq]
  · rintro d carried hcarried ⟨found, hfound⟩
    rw [Answers, hboth d carried hcarried, (Query.holds_inner true).mp hfound]
    cases found <;> exact ⟨_, rfl⟩

/-- Scoping restricts a query to a space: the query that it gives finds what the query finds and the
filter for the space finds too. -/
theorem restricts_apply {name : String} (hname : name ≠ "") (fields : List String)
    (hquery : Query.Given (fun _ _ => True) query) :
    ∃ narrow, apply query (some name) fields = .ok narrow ∧
      Restricts narrow query (filter name fields) := by
  have happly : apply query (some name) fields =
      if query.truthy then combined query (filter name fields)
      else .ok (.object [("bool", .object [("filter", .list [filter name fields])])]) := by
    unfold apply
    split
    · rename_i hnone
      cases hnone
    · rename_i hempty
      exact absurd (Option.some.inj hempty) hname
    · rename_i other hother
      cases hother
      rfl
  rcases hquery with habsent | hnested
  · refine ⟨_, ?_, restricts_alone habsent⟩
    rw [happly, habsent]
    rfl
  · cases hnested with
    | simple hknown _ =>
      rename_i key clause _
      refine ⟨_, ?_, restricts_beside _ _⟩
      have hkey : key ≠ "bool" := by
        rintro rfl
        exact absurd hknown (by decide)
      rw [happly]
      show combined (.object [(key, clause)]) (filter name fields) = _
      rw [combined, Json.get?, Table.get?, if_neg hkey]
      rfl
    | compound hmust hfilters =>
      exact ⟨_, happly, restricts_narrowed hmust hfilters⟩

end

/-! ### Names in fields -/

/-- Whether a stored body has a name in a field, under a mapping. -/
def holdsAt (mapping : Mapping) (name : String) (body : Table Json) (field : String) : Bool :=
  (Query.valueAt? mapping body field).any (Query.holdsValue · (.text name))

/-- Whether a stored body has a name in one of some fields that can be searched, under a mapping. -/
def namedIn (mapping : Mapping) (fields : List String) (name : String) (body : Table Json) : Bool :=
  fields.any fun field => Query.searchable mapping field && holdsAt mapping name body field

theorem carries_eq_namedIn (mapping : Mapping) (space : Space) (body : Table Json) :
    carries mapping space body =
      namedIn mapping ({} : ContentSettings).spaceFieldCandidates space.name body := rfl

/-- A filter for a name in some fields finds the bodies that have it in one of them. -/
theorem holds_filter_namedIn (d : Query.Subject) {inner : Bool} (name : String)
    {fields : List String} (hfields : fields ≠ []) :
    Query.holds d inner (filter name fields) = .ok (namedIn d.mapping fields name d.body) := by
  obtain ⟨field, rest, rfl⟩ := List.exists_cons_of_ne_nil hfields
  exact Query.holds_filter d inner name field rest

/-- What a query finds that is scoped to a name in some fields. -/
theorem finds_restricted {narrow query : Json} {name : String} {fields : List String}
    (h : Restricts narrow query (filter name fields)) (hfields : fields ≠ []) (d : Query.Subject) :
    finds d narrow = (finds d query && namedIn d.mapping fields name d.body) :=
  h.finds_eq d _ (holds_filter_namedIn d name hfields)

end Scope

end Lifecycle
