import Lifecycle.Proofs.Labels
import Lifecycle.Proofs.Table

/-!
# Projections of stored bodies

A projection shows a body at some paths, one after another placed in a table that is empty at first.
Paths may be given twice, and one may lead into what another one asks for whole. Whatever they are,
the projection has at each of them what the body has there, and nothing beside them
(`Query.projects_partsAt`).

A value placed in a table is at its path, and what is at paths that part from it stays
(`Query.at?_place_append`, `Query.at?_place_of_apart`). What is on the way to it is a part of the
body already, or was not asked for: a value that is there is placed without effect
(`Query.place_eq_self`).
-/

namespace Lifecycle.Query

/-! ### Placing a value -/

variable {t body view : Table Json} {path other : List String} {value : Json}

/-- The fields that a value is placed in under a key, when it lies deeper. -/
def innerAt (t : Table Json) (key : String) : Table Json :=
  match t.get? key with
  | some (.object fields) => fields
  | _ => []

theorem place_deeper (t : Table Json) (key : String) {path : List String} (h : path ≠ [])
    (value : Json) :
    place t (key :: path) value = t.put key (.object (place (innerAt t key) path value)) := by
  cases path with
  | nil => exact absurd rfl h
  | cons next rest => rfl

theorem at?_cons (t : Table Json) (key : String) (path : List String) :
    at? (.object t) (key :: path) = (t.get? key).bind (at? · path) := by
  rw [at?]
  cases Table.get? t key <;> rfl

/-- What is under a key, deeper, is in the fields there. -/
theorem at?_innerAt (t : Table Json) (key : String) (h : path ≠ []) :
    at? (.object (innerAt t key)) path = at? (.object t) (key :: path) := by
  obtain ⟨next, rest, rfl⟩ := List.exists_cons_of_ne_nil h
  rw [at?_cons t, innerAt]
  cases hfound : t.get? key with
  | none => rfl
  | some found => cases found <;> rfl

theorem at?_place_append (t : Table Json) (h : path ≠ []) (value : Json) (rest : List String) :
    at? (.object (place t path value)) (path ++ rest) = at? value rest := by
  induction path generalizing t with
  | nil => exact absurd rfl h
  | cons key path ih =>
    rw [List.cons_append, at?_cons]
    cases path with
    | nil => rw [place, Table.get?_put, if_pos rfl, List.nil_append, Option.bind_some]
    | cons next path =>
      rw [place_deeper t key (List.cons_ne_nil _ _), Table.get?_put, if_pos rfl, Option.bind_some,
        ih _ (List.cons_ne_nil _ _)]

/-- Values at paths that part from that of a placed value stay. -/
theorem at?_place_of_apart (t : Table Json) (value : Json) (hbehind : ¬ path <+: other)
    (hbefore : ¬ other <+: path) :
    at? (.object (place t path value)) other = at? (.object t) other := by
  induction path generalizing t other with
  | nil => exact absurd List.nil_prefix hbehind
  | cons key path ih =>
    cases other with
    | nil => exact absurd List.nil_prefix hbefore
    | cons first others =>
      rw [at?_cons, at?_cons]
      by_cases hkey : key = first
      · subst hkey
        rw [List.cons_prefix_cons, and_iff_right rfl] at hbehind hbefore
        have hpath : path ≠ [] := by
          rintro rfl
          exact hbehind List.nil_prefix
        have hothers : others ≠ [] := by
          rintro rfl
          exact hbefore List.nil_prefix
        rw [place_deeper t key hpath, Table.get?_put, if_pos rfl, Option.bind_some,
          ih _ hbehind hbefore, at?_innerAt t key hothers, at?_cons]
      · cases path with
        | nil => rw [place, Table.get?_put, if_neg hkey]
        | cons next path =>
          rw [place_deeper t key (List.cons_ne_nil _ _), Table.get?_put, if_neg hkey]

/-- A value that is at a path already is placed there without effect. -/
theorem place_eq_self (h : at? (.object t) path = some value) (hpath : path ≠ []) :
    place t path value = t := by
  induction path generalizing t with
  | nil => exact absurd rfl hpath
  | cons key path ih =>
    cases path with
    | nil =>
      refine Table.put_eq_self ?_
      rw [at?_cons] at h
      cases hfound : t.get? key with
      | none => simp [hfound] at h
      | some found =>
        rw [hfound] at h
        exact h
    | cons next path =>
      have hinner : at? (.object (innerAt t key)) (next :: path) = some value := by
        rw [at?_innerAt t key (List.cons_ne_nil _ _), h]
      rw [place_deeper t key (List.cons_ne_nil _ _), ih hinner (List.cons_ne_nil _ _)]
      refine Table.put_eq_self ?_
      rw [innerAt] at hinner ⊢
      cases hfound : t.get? key with
      | none => simp [hfound, at?] at hinner
      | some found => cases found <;> simp_all [at?]

/-! ### Projections -/

/-- A table has what a body has at some paths, and nothing beside them. -/
structure Projects (paths : List (List String)) (body view : Table Json) : Prop where
  same : ∀ path ∈ paths, at? (.object view) path = at? (.object body) path
  only : ∀ path ≠ [], (at? (.object view) path).isSome → ∃ asked ∈ paths,
    (at? (.object body) asked).isSome ∧ (asked <+: path ∨ path <+: asked)

theorem isSome_at?_of_prefix {root : Json} (h : path <+: other) (hsome : (at? root other).isSome) :
    (at? root path).isSome := by
  obtain ⟨rest, rfl⟩ := h
  rw [at?_append] at hsome
  cases hfound : at? root path with
  | none => simp [hfound] at hsome
  | some found => rfl

variable {paths : List (List String)}

/-- What stands in a projection stands in the body. -/
theorem Projects.isSome (h : Projects paths body view) (hpath : path ≠ [])
    (hsome : (at? (.object view) path).isSome) : (at? (.object body) path).isSome := by
  obtain ⟨asked, hasked, hfound, hprefix | hprefix⟩ := h.only path hpath hsome
  · obtain ⟨rest, rfl⟩ := hprefix
    rwa [at?_append, h.same asked hasked, ← at?_append] at hsome
  · exact isSome_at?_of_prefix hprefix hfound

/-- A table that shows one more path: it has what the body has at all of them, and beside what a
projection has only what lies on the way to that path or behind it. -/
theorem Projects.extended (h : Projects paths body view) {shown : Table Json}
    (hsame : ∀ asked ∈ paths, at? (.object shown) asked = at? (.object body) asked)
    (hlast : at? (.object shown) path = at? (.object body) path)
    (honly : ∀ other, (at? (.object shown) other).isSome → (at? (.object view) other).isSome ∨
      (at? (.object body) path).isSome ∧ (path <+: other ∨ other <+: path)) :
    Projects (paths ++ [path]) body shown where
  same asked hasked := by
    rcases List.mem_append.mp hasked with hmem | hmem
    · exact hsame asked hmem
    · rw [List.mem_singleton.mp hmem]
      exact hlast
  only other hother hsome := by
    rcases honly other hsome with hold | ⟨hfound, hnear⟩
    · obtain ⟨asked, hasked, hnear⟩ := h.only other hother hold
      exact ⟨asked, List.mem_append_left _ hasked, hnear⟩
    · exact ⟨path, List.mem_append_right _ (List.mem_singleton_self _), hfound, hnear⟩

/-- Placing what the body has at one more path. -/
theorem Projects.place (h : Projects paths body view) (hpath : path ≠ [])
    (hvalue : at? (.object body) path = some value) :
    Projects (paths ++ [path]) body (place view path value) := by
  by_cases hthere : at? (.object view) path = some value
  · rw [place_eq_self hthere hpath]
    exact h.extended h.same (hthere.trans hvalue.symm) fun other => .inl
  have hplaced := at?_place_append view hpath value
  refine h.extended (fun asked hasked => ?_) ?_ fun other hsome => ?_
  · by_cases hbehind : path <+: asked
    · obtain ⟨rest, rfl⟩ := hbehind
      rw [hplaced, at?_append, hvalue, Option.bind_some]
    · have hbefore : ¬ asked <+: path := by
        -- what was asked for before would have the value already
        rintro ⟨rest, rfl⟩
        rw [at?_append, h.same asked hasked, ← at?_append] at hthere
        exact hthere hvalue
      rw [at?_place_of_apart view value hbehind hbefore, h.same asked hasked]
  · have hself := hplaced []
    rw [List.append_nil] at hself
    rw [hself, hvalue, at?]
  · have hfound : (at? (.object body) path).isSome := by rw [hvalue]; rfl
    by_cases hbehind : path <+: other
    · exact .inr ⟨hfound, .inl hbehind⟩
    · by_cases hbefore : other <+: path
      · exact .inr ⟨hfound, .inr hbefore⟩
      · rw [at?_place_of_apart view value hbehind hbefore] at hsome
        exact .inl hsome

/-- A projection with what the body has at one more path, if it has anything there. -/
theorem Projects.withPart (h : Projects paths body view) (hpath : path ≠ []) :
    Projects (paths ++ [path]) body (withPart body view path) := by
  rw [Query.withPart]
  cases hvalue : at? (.object body) path with
  | none =>
    refine h.extended h.same ?_ fun other => .inl
    rw [hvalue, ← Option.not_isSome_iff_eq_none]
    intro hsome
    have hthere := h.isSome hpath hsome
    rw [hvalue] at hthere
    cases hthere
  | some value => exact h.place hpath hvalue

theorem split_ne_nil (c : Char) (s : String) : Text.split c s ≠ [] := by
  rw [Text.split, ne_eq, List.map_eq_nil_iff]
  exact Text.splitAt_ne_nil c s.toList

/-- A projection has what the body has at each of its paths, and nothing beside them. -/
theorem projects_partsAt (body : Table Json) (paths : List String) :
    Projects (paths.map (Text.split '.')) body (partsAt body paths) := by
  induction paths using List.reverseRecOn with
  | nil =>
    refine ⟨fun path hpath => absurd hpath List.not_mem_nil, fun path hpath hsome => ?_⟩
    obtain ⟨key, rest, rfl⟩ := List.exists_cons_of_ne_nil hpath
    cases hsome
  | append_singleton paths path ih =>
    rw [partsAt, List.foldl_concat, List.map_append]
    exact ih.withPart (split_ne_nil '.' path)

theorem at?_partsAt {paths : List String} {asked : String} (h : asked ∈ paths) :
    at? (.object (partsAt body paths)) (Text.split '.' asked) =
      at? (.object body) (Text.split '.' asked) :=
  (projects_partsAt body paths).same _ (List.mem_map_of_mem h)

/-! ### Projections as tables -/

theorem distinct_place {t : Table Json} (h : t.Distinct) (path : List String) (value : Json) :
    (place t path value).Distinct := by
  cases path with
  | nil => exact h
  | cons key path =>
    cases path with
    | nil => exact h.put key value
    | cons next rest => exact h.put key _

theorem distinct_partsAt (body : Table Json) (paths : List String) :
    (partsAt body paths).Distinct := by
  induction paths using List.reverseRecOn with
  | nil => exact Table.Distinct.nil
  | append_singleton paths path ih =>
    rw [partsAt, List.foldl_concat]
    change (withPart body (partsAt body paths) _).Distinct
    rw [withPart]
    split
    · exact distinct_place ih _ _
    · exact ih

/-- A projection of a body without a key does not have it either. -/
theorem get?_partsAt_eq_none {body : Table Json} {key : String} (h : body.get? key = none)
    (paths : List String) : Table.get? (partsAt body paths) key = none := by
  have hbody : at? (.object body) [key] = none := by rw [at?_key]; exact h
  have hview : at? (.object (partsAt body paths)) [key] = none := by
    rw [← Option.not_isSome_iff_eq_none]
    intro hsome
    have hthere := (projects_partsAt body paths).isSome (List.cons_ne_nil _ _) hsome
    rw [hbody] at hthere
    cases hthere
  rwa [at?_key] at hview

theorem paths_texts (asked : List String) : Query.paths (asked.map .text) = .ok asked := by
  induction asked with
  | nil => rfl
  | cons path rest ih => rw [List.map_cons, Query.paths, ih]; rfl

theorem projected_texts (asked : List String) (body : Table Json) :
    projected (Json.texts asked) body = .ok (partsAt body asked) := by
  show (do
    let found ← Query.paths (asked.map .text)
    pure (partsAt body found) : Except Fault (Table Json)) = _
  rw [paths_texts]
  rfl

end Lifecycle.Query
