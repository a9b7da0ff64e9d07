/-!
# White space at the ends of text

Two classes of white space occur. Names, ids and answers typed by a person are trimmed of blanks:
the white space of the Unicode standard and the four information separators. Numbers in settings
are trimmed of the white space of the standard alone.
-/

namespace Lifecycle.Text

/-! ### The classes -/

def isWhiteSpace (c : Char) : Bool :=
  let n := c.toNat
  (9 ≤ n && n ≤ 13) || n == 0x20 || n == 0x85 || n == 0xA0 || n == 0x1680 ||
    (0x2000 ≤ n && n ≤ 0x200A) || n == 0x2028 || n == 0x2029 || n == 0x202F || n == 0x205F ||
    n == 0x3000

/-- White space, or one of the information separators U+001C to U+001F. -/
def isBlank (c : Char) : Bool :=
  isWhiteSpace c || (0x1C ≤ c.toNat && c.toNat ≤ 0x1F)

/-! ### Trimming -/

/-- The list without the longest run of characters of a class at its end. -/
def dropEnd (p : Char → Bool) (cs : List Char) : List Char :=
  (cs.reverse.dropWhile p).reverse

/-- The list without characters of a class at its two ends. -/
def dropEnds (p : Char → Bool) (cs : List Char) : List Char :=
  dropEnd p (cs.dropWhile p)

def trim (s : String) : String :=
  String.ofList (dropEnds isBlank s.toList)

/-- The text without white space at its two ends. -/
def trimWhiteSpace (s : String) : String :=
  String.ofList (dropEnds isWhiteSpace s.toList)

/-- The text without the given character at its end, however often it stands there. -/
def trimEnd (c : Char) (s : String) : String :=
  String.ofList (dropEnd (· == c) s.toList)

/-- The text without the given character at its two ends. -/
def trimBoth (c : Char) (s : String) : String :=
  String.ofList (dropEnds (· == c) s.toList)

end Lifecycle.Text
