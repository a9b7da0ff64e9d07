import Lifecycle.Json
import Lifecycle.Text.Blank

/-!
# Checked values

Input from outside is checked against what a field may hold. A check gives the value or all
complaints about it, each with the path to its place; checking several fields collects the
complaints of all of them, in the order of the fields.
-/

namespace Lifecycle

/-! ### Complaints -/

/-- A step of the path to a place: a key of an object, or a position in a list. -/
inductive Place where
  | field (name : String)
  | item (position : Nat)
  deriving DecidableEq, Repr

inductive Complaint where
  | missing
  | notText
  | notList
  | notObject
  | notModel
  | notAttributes
  | notMember
  | rejected (message : String)
  | unexpected
  | notInt
  | unreadableInt
  | fractionalInt
  | tooSmall
  | belowMinimum
  | aboveMaximum
  | notBool
  | unreadableBool
  | notFloat
  | unreadableFloat
  | notLiteral
  | invalidJson
  deriving DecidableEq, Repr

def Complaint.name : Complaint → String
  | .missing => "missing"
  | .notText => "string_type"
  | .notList => "list_type"
  | .notObject => "dict_type"
  | .notModel => "model_type"
  | .notAttributes => "model_attributes_type"
  | .notMember => "enum"
  | .rejected _ => "value_error"
  | .unexpected => "extra_forbidden"
  | .notInt => "int_type"
  | .unreadableInt => "int_parsing"
  | .fractionalInt => "int_from_float"
  | .tooSmall => "greater_than"
  | .belowMinimum => "greater_than_equal"
  | .aboveMaximum => "less_than_equal"
  | .notBool => "bool_type"
  | .unreadableBool => "bool_parsing"
  | .notFloat => "float_type"
  | .unreadableFloat => "float_parsing"
  | .notLiteral => "literal_error"
  | .invalidJson => "json_invalid"

/-- A complaint and the path to the place it is about. -/
structure Detail where
  complaint : Complaint
  path : List Place
  deriving DecidableEq, Repr

/-! ### Checks -/

inductive Checked (α : Type u) where
  | good (value : α)
  | bad (details : List Detail)
  deriving Repr

namespace Checked

variable {α β : Type u}

def complain (complaint : Complaint) : Checked α := .bad [⟨complaint, []⟩]

def map (f : α → β) : Checked α → Checked β
  | .good value => .good (f value)
  | .bad details => .bad details

/-- Two checks side by side, with the complaints of both. -/
def ap : Checked (α → β) → Checked α → Checked β
  | .good f, .good value => .good (f value)
  | .good _, .bad details => .bad details
  | .bad details, .good _ => .bad details
  | .bad details, .bad more => .bad (details ++ more)

instance : Applicative Checked where
  pure := .good
  seq f x := ap f (x ())

/-- A further check of a value that passed the first. -/
def andThen (check : α → Checked β) : Checked α → Checked β
  | .good value => check value
  | .bad details => .bad details

/-- The same check of a value that stands at a place of a larger one. -/
def under (place : Place) : Checked α → Checked α
  | .good value => .good value
  | .bad details => .bad (details.map fun detail => { detail with path := place :: detail.path })

/-- The checked values of a list of checks, with the complaints of all of them. -/
def sequence : List (Checked α) → Checked (List α)
  | [] => .good []
  | check :: rest => ap (map List.cons check) (sequence rest)

end Checked

/-! ### Kinds of values -/

namespace Check

def text : Json → Checked String
  | .text s => .good s
  | _ => .complain .notText

def text? : Json → Checked (Option String)
  | .null => .good none
  | value => (text value).map some

def listOf {α : Type} (check : Json → Checked α) : Json → Checked (List α)
  | .list items =>
    .sequence (items.zipIdx.map fun (item, position) => (check item).under (.item position))
  | _ => .complain .notList

def listOf? {α : Type} (check : Json → Checked α) : Json → Checked (Option (List α))
  | .null => .good none
  | value => (listOf check value).map some

/-- The value under a key, or a default when there is none. -/
def optional {α : Type} (fields : Table Json) (key : String) (default : α)
    (check : Json → Checked α) : Checked α :=
  match fields.get? key with
  | some value => (check value).under (.field key)
  | none => .good default

/-- The value under a key that must be there. -/
def required {α : Type} (fields : Table Json) (key : String) (check : Json → Checked α) :
    Checked α :=
  match fields.get? key with
  | some value => (check value).under (.field key)
  | none => (Checked.complain .missing).under (.field key)

/-- An object whose fields pass a check; `otherwise` is the complaint about anything else. -/
def fieldsOf {α : Type} (otherwise : Complaint) (check : Table Json → Checked α) :
    Json → Checked α
  | .object fields => check fields
  | _ => .complain otherwise

def onlyKeys (fields : Table Json) (known : List String) : Checked Unit :=
  match (fields.without known).keys.map fun key => Detail.mk .unexpected [.field key] with
  | [] => .good ()
  | details => .bad details

end Check

/-! ### Numbers written as text -/

namespace Check

/-- Digits with single low lines between them, without the low lines. -/
def plainDigits? (cs : List Char) : Option (List Char) :=
  let rec go : Bool → List Char → Option (List Char)
    | afterDigit, [] => if afterDigit then some [] else none
    | afterDigit, '_' :: rest => if afterDigit then go false rest else none
    | _, c :: rest => if c.isDigit then (go true rest).map (c :: ·) else none
  go false cs

def natOfDigits (digits : List Char) : Nat :=
  digits.foldl (fun n c => 10 * n + (c.toNat - '0'.toNat)) 0

/-- A sign in front, and whether it is a minus. -/
def splitSign : List Char → Bool × List Char
  | '-' :: rest => (true, rest)
  | '+' :: rest => (false, rest)
  | cs => (false, cs)

/-- The whole number a text is: white space around it, a sign, digits with single low lines between
them, and a fraction of zeros are allowed. -/
def intOfText? (s : String) : Option Int := do
  let (negative, unsigned) := splitSign (Text.trimWhiteSpace s).toList
  let (whole, fraction) := unsigned.span (· != '.')
  guard ((fraction.drop 1).all (· == '0'))
  let digits ← plainDigits? whole
  let n : Int := natOfDigits digits
  pure (if negative then -n else n)

/-- A whole number: itself, a truth value as one or zero, a number of floating point without a
fraction, or a text that is one. -/
def int : Json → Checked Int
  | .int n => .good n
  | .bool b => .good (if b then 1 else 0)
  | .float x =>
    match x.toInt? with
    | some n => .good n
    | none => .complain .fractionalInt
  | .text s =>
    match intOfText? s with
    | some n => .good n
    | none => .complain .unreadableInt
  | _ => .complain .notInt

def above (bound : Int) (n : Int) : Checked Int :=
  if n > bound then .good n else .complain .tooSmall

def atLeast (bound : Int) (n : Int) : Checked Int :=
  if n ≥ bound then .good n else .complain .belowMinimum

def atMost (bound : Int) (n : Int) : Checked Int :=
  if n ≤ bound then .good n else .complain .aboveMaximum

def boolOfText? (s : String) : Option Bool :=
  let word := s.toList.map Char.toLower
  if ["0", "off", "f", "false", "n", "no"].any (·.toList == word) then some false
  else if ["1", "on", "t", "true", "y", "yes"].any (·.toList == word) then some true
  else none

/-- The truth value of a number that is one or zero. -/
def boolOfInt (n : Int) : Checked Bool :=
  if n == 0 then .good false else if n == 1 then .good true else .complain .unreadableBool

/-- A truth value: itself, in words, or as one or zero. -/
def bool : Json → Checked Bool
  | .bool b => .good b
  | .text s =>
    match boolOfText? s with
    | some b => .good b
    | none => .complain .unreadableBool
  | .int n => boolOfInt n
  | .float x =>
    match x.toInt? with
    | some n => boolOfInt n
    | none => .complain .notBool
  | _ => .complain .notBool

/-- The words for numbers that are not finite, in any casing. -/
def specialOfWord? (word : List Char) : Option Binary64 :=
  let lowered := String.ofList (word.map Char.toLower)
  if lowered == "inf" || lowered == "infinity" then some (.infinite false)
  else if lowered == "nan" then some .undefined
  else none

/-- The number of floating point a text without a sign is. -/
def unsignedFloat? (negative : Bool) (cs : List Char) : Option Binary64 := do
  let (mantissa, exponent) := cs.span fun c => c != 'e' && c != 'E'
  let (whole, fraction) := mantissa.span (· != '.')
  let fraction := fraction.drop 1
  guard ((whole ++ fraction).all Char.isDigit && !(whole ++ fraction).isEmpty)
  let e : Int ←
    match exponent with
    | [] => pure 0
    | _ :: rest => do
      let (down, digits) := splitSign rest
      guard (!digits.isEmpty && digits.all Char.isDigit)
      let n : Int := natOfDigits digits
      pure (if down then -n else n)
  pure (Binary64.ofDecimal negative (natOfDigits (whole ++ fraction)) (e - fraction.length))

/-- The text without low lines, of which none may stand at an end or beside another one. -/
def withoutLowLines? (cs : List Char) : Option (List Char) :=
  let rec go : Bool → List Char → Option (List Char)
    | inside, [] => if inside then some [] else none
    | inside, '_' :: rest => if inside then go false rest else none
    | _, c :: rest => (go true rest).map (c :: ·)
  go false cs

/-- The number of floating point a text is; white space around it is allowed. -/
def floatOfText? (s : String) : Option Binary64 := do
  let cs ← withoutLowLines? (Text.trimWhiteSpace s).toList
  let (negative, unsigned) := splitSign cs
  match specialOfWord? unsigned with
  | some (.infinite _) => pure (.infinite negative)
  | some x => pure x
  | none => unsignedFloat? negative unsigned

/-- A number of floating point: itself, a whole number, a truth value, or a text that is one. -/
def float : Json → Checked Binary64
  | .float x => .good x
  | .int n => .good (Binary64.ofInt n)
  | .bool b => .good (Binary64.ofInt (if b then 1 else 0))
  | .text s =>
    match floatOfText? s with
    | some x => .good x
    | none => .complain .unreadableFloat
  | _ => .complain .notFloat

end Check

end Lifecycle
