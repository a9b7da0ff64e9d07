/-!
# Sets of characters given by ranges of code points

A character class beyond ASCII is a list of closed ranges of code points; membership is a search
through the list.
-/

namespace Lifecycle.Text

/-- A closed range of code points, first and last. -/
abbrev CodeRange := Nat × Nat

/-- A code point is covered by a list of ranges when one of them contains it. -/
def covered (ranges : List CodeRange) (code : Nat) : Bool :=
  ranges.any fun range => range.1 ≤ code && code ≤ range.2

/-- A character is in a class when its code point is covered by the ranges of the class. -/
def inClass (ranges : List CodeRange) (c : Char) : Bool :=
  covered ranges c.toNat

end Lifecycle.Text
