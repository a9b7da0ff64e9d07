/-!
# Splitting text at a character

`splitAt c cs` are the pieces between the occurrences of `c`; there is one piece more than there are
occurrences, so the empty text has one empty piece.
-/

namespace Lifecycle.Text

/-- The pieces of a list of characters between the occurrences of one of them. -/
def splitAt (c : Char) : List Char → List (List Char)
  | [] => [[]]
  | d :: rest =>
    match splitAt c rest with
    | [] => [[]]
    | piece :: pieces => if d == c then [] :: piece :: pieces else (d :: piece) :: pieces

/-- The pieces of a text between the occurrences of a character. -/
def split (c : Char) (s : String) : List String :=
  (splitAt c s.toList).map String.ofList

theorem splitAt_ne_nil (c : Char) (cs : List Char) : splitAt c cs ≠ [] := by
  cases cs with
  | nil => simp [splitAt]
  | cons d rest =>
    simp only [splitAt]
    split
    · simp
    · split <;> simp

end Lifecycle.Text
