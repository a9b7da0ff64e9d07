/-!
# Shell patterns

In a pattern `*` stands for any characters, `?` for one, and a bracket expression for one character
of a set: single characters and ranges, or with a leading `!` every other character. A bracket that
is not closed stands for itself; a closing bracket right at the start of an expression is a member
of it. A pattern is matched against a whole text.
-/

namespace Lifecycle.Text

inductive GlobPart where
  /-- Any characters, perhaps none. -/
  | anything
  /-- Any one character. -/
  | one
  /-- This character. -/
  | char (c : Char)
  /-- One character in one of the closed ranges, or in none of them. -/
  | member (negated : Bool) (ranges : List (Char × Char))
  deriving DecidableEq, Repr

namespace Glob

/-! ### Reading a pattern -/

/-- The ranges between the brackets of an expression; a single character is a range of one. -/
def ranges : List Char → List (Char × Char)
  | [] => []
  | [a] => [(a, a)]
  | [a, b] => [(a, a), (b, b)]
  | a :: b :: c :: rest =>
    if b == '-' then (a, c) :: ranges rest else (a, a) :: ranges (b :: c :: rest)

def inhabited (found : List (Char × Char)) : List (Char × Char) :=
  found.filter fun range => range.1 ≤ range.2

def bracket (inner : List Char) : GlobPart :=
  match inner with
  | '!' :: rest => .member true (inhabited (ranges rest))
  | _ =>
    match inhabited (ranges inner) with
    | ('!', '!') :: rest => .member true rest
    | found => .member false found

/-- The characters between the brackets of an expression whose opening bracket has been read, and
those behind it. The first character, or the first after `!`, may be a closing bracket. -/
def bracketed? (cs : List Char) : Option (List Char × List Char) :=
  let (lead, rest) :=
    match cs with
    | '!' :: ']' :: rest => (['!', ']'], rest)
    | '!' :: rest => (['!'], rest)
    | ']' :: rest => ([']'], rest)
    | rest => ([], rest)
  match rest.span (· != ']') with
  | (inner, _ :: rest) => some (lead ++ inner, rest)
  | (_, []) => none

/-- The parts of a pattern; `fuel` bounds how many are read. -/
def partsWithin : Nat → List Char → List GlobPart
  | 0, _ => []
  | _ + 1, [] => []
  | fuel + 1, '*' :: rest => .anything :: partsWithin fuel rest
  | fuel + 1, '?' :: rest => .one :: partsWithin fuel rest
  | fuel + 1, '[' :: rest =>
    match bracketed? rest with
    | some (inner, rest') => bracket inner :: partsWithin fuel rest'
    | none => .char '[' :: partsWithin fuel rest
  | fuel + 1, c :: rest => .char c :: partsWithin fuel rest

/-- The parts of a pattern. Each takes at least one character. -/
def parts (pattern : List Char) : List GlobPart := partsWithin pattern.length pattern

/-! ### Matching -/

/-- Whether a part that stands for one character stands for this one. -/
def accepts : GlobPart → Char → Bool
  | .anything, _ => false
  | .one, _ => true
  | .char d, c => c == d
  | .member negated found, c => found.any (fun range => range.1 ≤ c && c ≤ range.2) != negated

/-- Whether a property holds of some end of a list, the whole list and the empty one included. -/
def someEnd (p : List Char → Bool) : List Char → Bool
  | [] => p []
  | c :: rest => p (c :: rest) || someEnd p rest

def matchesParts : List GlobPart → List Char → Bool
  | [], cs => cs.isEmpty
  | .anything :: rest, cs => someEnd (matchesParts rest) cs
  | _ :: _, [] => false
  | part :: rest, c :: cs => accepts part c && matchesParts rest cs

def matchesText (pattern s : String) : Bool := matchesParts (parts pattern.toList) s.toList

end Glob

end Lifecycle.Text
