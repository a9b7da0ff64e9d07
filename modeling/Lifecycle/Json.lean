import Lifecycle.Table
import Lifecycle.Number.Binary64

/-!
# JSON values

Whole numbers are unbounded and apart from floating point numbers: `1` and `1.0` are two values,
though they are the same number. Objects keep the order in which their keys were written.

`Json.truthy` says which values count as given, `Json.same` when two values count as equal: numbers
by value, objects whatever the order of their keys.
-/

namespace Lifecycle

inductive Json where
  | null
  | bool (b : Bool)
  | int (n : Int)
  | float (x : Binary64)
  | text (s : String)
  | list (items : List Json)
  | object (fields : List (String × Json))
  deriving Repr, Inhabited

namespace Json

/-! ### Equality of representations -/

mutual

/-- Decides whether two values are written the same way, key order included. -/
def decideEq : (a b : Json) → Decidable (a = b)
  | .null, .null => isTrue rfl
  | .bool a, .bool b => decidable_of_iff (a = b) (by simp)
  | .int a, .int b => decidable_of_iff (a = b) (by simp)
  | .float a, .float b => decidable_of_iff (a = b) (by simp)
  | .text a, .text b => decidable_of_iff (a = b) (by simp)
  | .list a, .list b =>
    match decideItems a b with
    | isTrue h => isTrue (by rw [h])
    | isFalse h => isFalse (by simpa using h)
  | .object a, .object b =>
    match decideFields a b with
    | isTrue h => isTrue (by rw [h])
    | isFalse h => isFalse (by simpa using h)
  | .null, .bool _ | .null, .int _ | .null, .float _ | .null, .text _ | .null, .list _
  | .null, .object _ | .bool _, .null | .bool _, .int _ | .bool _, .float _ | .bool _, .text _
  | .bool _, .list _ | .bool _, .object _ | .int _, .null | .int _, .bool _ | .int _, .float _
  | .int _, .text _ | .int _, .list _ | .int _, .object _ | .float _, .null | .float _, .bool _
  | .float _, .int _ | .float _, .text _ | .float _, .list _ | .float _, .object _
  | .text _, .null | .text _, .bool _ | .text _, .int _ | .text _, .float _ | .text _, .list _
  | .text _, .object _ | .list _, .null | .list _, .bool _ | .list _, .int _ | .list _, .float _
  | .list _, .text _ | .list _, .object _ | .object _, .null | .object _, .bool _
  | .object _, .int _ | .object _, .float _ | .object _, .text _ | .object _, .list _ =>
    isFalse (by simp)

def decideItems : (a b : List Json) → Decidable (a = b)
  | [], [] => isTrue rfl
  | [], _ :: _ => isFalse (by simp)
  | _ :: _, [] => isFalse (by simp)
  | x :: xs, y :: ys =>
    match decideEq x y, decideItems xs ys with
    | isTrue h, isTrue h' => isTrue (by rw [h, h'])
    | isFalse h, _ => isFalse (by simp [h])
    | _, isFalse h => isFalse (by simp [h])

def decideFields : (a b : List (String × Json)) → Decidable (a = b)
  | [], [] => isTrue rfl
  | [], _ :: _ => isFalse (by simp)
  | _ :: _, [] => isFalse (by simp)
  | (k, x) :: xs, (l, y) :: ys =>
    match decEq k l, decideEq x y, decideFields xs ys with
    | isTrue h, isTrue h', isTrue h'' => isTrue (by rw [h, h', h''])
    | isFalse h, _, _ => isFalse (by simp [h])
    | _, isFalse h, _ => isFalse (by simp [h])
    | _, _, isFalse h => isFalse (by simp [h])

end

instance : DecidableEq Json := decideEq

/-! ### Views -/

def get? : Json → String → Option Json
  | .object fields, key => Table.get? fields key
  | _, _ => none

/-- The value under a key of a table, null if there is none. -/
def under (fields : Table Json) (key : String) : Json := (Table.get? fields key).getD .null

def fields? : Json → Option (Table Json)
  | .object fields => some fields
  | _ => none

def text? : Json → Option String
  | .text s => some s
  | _ => none

def list? : Json → Option (List Json)
  | .list items => some items
  | _ => none

def texts (items : List String) : Json := .list (items.map .text)

def ofText? : Option String → Json
  | some s => .text s
  | none => .null

/-- A value counts as given unless it is null, false, zero or empty. -/
def truthy : Json → Bool
  | .null => false
  | .bool b => b
  | .int n => n != 0
  | .float x => !x.isZero
  | .text s => !s.isEmpty
  | .list items => !items.isEmpty
  | .object fields => !fields.isEmpty

def given? (value : Json) : Option Json := if value.truthy then some value else none

/-! ### Equality of values -/

/-- The number a value is: whole, or of floating point. A truth value is one or zero. -/
def number? : Json → Option (Int ⊕ Binary64)
  | .bool b => some (.inl (if b then 1 else 0))
  | .int n => some (.inl n)
  | .float x => some (.inr x)
  | _ => none

/-- Equality of numbers by value. -/
def sameNumber : Int ⊕ Binary64 → Int ⊕ Binary64 → Bool
  | .inl a, .inl b => a == b
  | .inr a, .inr b => a.same b
  | .inl a, .inr b => b.toInt? == some a
  | .inr a, .inl b => a.toInt? == some b

def sameScalar (a : Int ⊕ Binary64) (b : Json) : Bool :=
  match b.number? with
  | some n => sameNumber a n
  | none => false

mutual

/-- Equality of values: numbers by value, objects whatever the order of their keys. -/
def same : Json → Json → Bool
  | .null, .null => true
  | .text a, .text b => a == b
  | .list a, .list b => sameItems a b
  | .object a, .object b => a.length == b.length && sameFields a b
  | .bool a, b => sameScalar (.inl (if a then 1 else 0)) b
  | .int a, b => sameScalar (.inl a) b
  | .float a, b => sameScalar (.inr a) b
  | _, _ => false
termination_by structural a => a

def sameItems : List Json → List Json → Bool
  | [], [] => true
  | a :: as, b :: bs => same a b && sameItems as bs
  | _, _ => false
termination_by structural a => a

/-- Whether every field has an equal field in a table. -/
def sameFields : List (String × Json) → Table Json → Bool
  | [], _ => true
  | entry :: rest, other => sameField entry other && sameFields rest other
termination_by structural a => a

/-- Whether a field has an equal field in a table. -/
def sameField : String × Json → Table Json → Bool
  | (key, value), other =>
    match Table.get? other key with
    | some found => same value found
    | none => false
termination_by structural a => a

end

end Json

end Lifecycle
