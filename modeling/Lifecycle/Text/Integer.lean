import Lifecycle.Text.Blank
import Lifecycle.Text.DecimalDigit

/-!
# Whole numbers in text

A whole number is a sign that may be missing and decimal digits of any script, with single low lines
between them and blanks around the whole.
-/

namespace Lifecycle.Text

/-- The values of digits with single low lines between them. `afterDigit` says whether a digit
stands before these characters. -/
def digitValues? (afterDigit : Bool) : List Char → Option (List Nat)
  | [] => if afterDigit then some [] else none
  | c :: rest =>
    if c == '_' then if afterDigit then digitValues? false rest else none
    else
      match digitValue? c with
      | some n => (digitValues? true rest).map (n :: ·)
      | none => none

/-- The whole number a text is, if it is one. -/
def integer? (s : String) : Option Int :=
  let (negative, digits) :=
    match (trim s).toList with
    | '-' :: rest => (true, rest)
    | '+' :: rest => (false, rest)
    | cs => (false, cs)
  (digitValues? false digits).map fun values =>
    let n : Int := (values.foldl (fun n d => 10 * n + d) 0 : Nat)
    if negative then -n else n

end Lifecycle.Text
