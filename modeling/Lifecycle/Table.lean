/-!
# Tables: entries under distinct keys, in the order in which the keys first appeared

Objects, indexes and caches are tables. Writing under a known key keeps the entry's position,
writing under a new key appends. The view of a table is `get?`; `get?_put` says what writing does to
it, and `keys_put` what it does to the order.
-/

namespace Lifecycle

/-- Entries of a value under a key each. -/
abbrev Table (α : Type u) := List (String × α)

namespace Table

variable {α : Type u}

/-! ### Operations -/

/-- The value of the first entry under a key. -/
def get? : Table α → String → Option α
  | [], _ => none
  | (k, v) :: rest, key => if k = key then some v else get? rest key

def has (t : Table α) (key : String) : Bool := (get? t key).isSome

/-- Writes a value under a key: in place of the entry there, or behind all entries. -/
def put : Table α → String → α → Table α
  | [], key, v => [(key, v)]
  | (k, w) :: rest, key, v => if k = key then (k, v) :: rest else (k, w) :: put rest key v

def remove (t : Table α) (key : String) : Table α := t.filter fun entry => entry.1 ≠ key

/-- The table without the entries under any of some keys. -/
def without (t : Table α) (keys : List String) : Table α :=
  t.filter fun entry => !keys.contains entry.1

/-- The table of a list of entries, of which later ones replace earlier ones under the same key. -/
def ofEntries (entries : List (String × α)) : Table α :=
  entries.foldl (fun t entry => put t entry.1 entry.2) []

def putAll (t : Table α) (entries : List (String × α)) : Table α :=
  entries.foldl (fun t entry => put t entry.1 entry.2) t

def keys (t : Table α) : List String := t.map (·.1)

def values (t : Table α) : List α := t.map (·.2)

/-! ### What writing does -/

@[simp] theorem get?_nil (key : String) : get? ([] : Table α) key = none := rfl

theorem get?_put (t : Table α) (key : String) (v : α) (other : String) :
    get? (put t key v) other = if key = other then some v else get? t other := by
  induction t with
  | nil => simp [put, get?]
  | cons entry rest ih =>
    obtain ⟨k, w⟩ := entry
    by_cases h : k = key
    · subst h
      by_cases h' : k = other <;> simp [put, get?, h']
    · by_cases h' : k = other
      · subst h'
        simp [put, get?, h, Ne.symm h]
      · simp [put, get?, h, h', ih]

theorem keys_put (t : Table α) (key : String) (v : α) :
    keys (put t key v) = if has t key then keys t else keys t ++ [key] := by
  induction t with
  | nil => simp [put, keys, has]
  | cons entry rest ih =>
    obtain ⟨k, w⟩ := entry
    by_cases h : k = key
    · simp [put, keys, has, get?, h]
    · simp only [keys, has] at ih
      by_cases h' : (get? rest key).isSome <;> simp_all [put, keys, has, get?]

end Table

end Lifecycle
