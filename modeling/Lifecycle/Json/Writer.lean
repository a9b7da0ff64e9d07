import Lifecycle.Json
import Lifecycle.Number.Shortest
import Lifecycle.Text.Hex

/-!
# Writing JSON

JSON text in ASCII: every other character is written as one or two `\uxxxx` groups, one for each of
its UTF-16 units. A style says what stands between items and fields, and whether the keys of objects
are sorted. `Json.canonical` sorts keys by code point at every level and writes no blanks, so that
values that differ only in the order of keys have one text.

Every value has a text: limits that a runtime sets (on how deep values are nested, and of 4300
digits on the text of an integer) are left out.
-/

namespace Lifecycle.Json

/-! ### Text -/

/-- A code point in `\uxxxx` groups, two of them above U+FFFF. -/
def unitEscape (code : Nat) : List Char :=
  if code < 0x10000 then '\\' :: 'u' :: Text.lowerHex 4 code
  else
    let offset := code - 0x10000
    '\\' :: 'u' :: Text.lowerHex 4 (0xD800 + offset / 0x400) ++
      '\\' :: 'u' :: Text.lowerHex 4 (0xDC00 + offset % 0x400)

def escapedChar (c : Char) : List Char :=
  if c == '"' then ['\\', '"']
  else if c == '\\' then ['\\', '\\']
  else if c == '\n' then ['\\', 'n']
  else if c == '\r' then ['\\', 'r']
  else if c == '\t' then ['\\', 't']
  else if c == '\x0c' then ['\\', 'f']
  else if c == '\x08' then ['\\', 'b']
  else if 0x20 ≤ c.toNat && c.toNat < 0x7F then [c]
  else unitEscape c.toNat

def writtenText (cs : List Char) : List Char :=
  '"' :: cs.flatMap escapedChar ++ ['"']

/-! ### Values -/

/-- What stands between items, and between a key and its value, and whether keys are sorted. -/
structure Style where
  comma : List Char
  colon : List Char
  sorted : Bool

def joined (separator : List Char) : List (List Char) → List Char
  | [] => []
  | [part] => part
  | part :: rest => part ++ separator ++ joined separator rest

/-- Entries in the order of their keys by code point. -/
def sortedByKey (entries : List (String × List Char)) : List (String × List Char) :=
  entries.mergeSort fun a b => a.1 ≤ b.1

/-- The digits of a number of floating point, or the word for it. -/
def writtenFloat : Binary64 → List Char
  | .undefined => ['N', 'a', 'N']
  | .infinite negative => (if negative then ['-'] else []) ++ "Infinity".toList
  | x => Shortest.standard.write x

mutual

def written (style : Style) : Json → List Char
  | .null => "null".toList
  | .bool b => if b then "true".toList else "false".toList
  | .int n => (toString n).toList
  | .float x => writtenFloat x
  | .text s => writtenText s.toList
  | .list items => '[' :: joined style.comma (writtenItems style items) ++ [']']
  | .object fields =>
    let entries := writtenFields style fields
    let entries := if style.sorted then sortedByKey entries else entries
    '\x7b' :: joined style.comma (entries.map (·.2)) ++ ['\x7d']
termination_by structural value => value

def writtenItems (style : Style) : List Json → List (List Char)
  | [] => []
  | item :: rest => written style item :: writtenItems style rest
termination_by structural items => items

/-- The keys of an object with the texts of its fields. -/
def writtenFields (style : Style) : List (String × Json) → List (String × List Char)
  | [] => []
  | field :: rest => writtenField style field :: writtenFields style rest
termination_by structural fields => fields

def writtenField (style : Style) : String × Json → String × List Char
  | (key, value) => (key, writtenText key.toList ++ style.colon ++ written style value)
termination_by structural field => field

end

/-- Sorted keys and no blanks. -/
def canonicalStyle : Style := ⟨[','], [':'], true⟩

/-- A blank after every comma and colon, keys as they stand. -/
def plainStyle : Style := ⟨[',', ' '], [':', ' '], false⟩

def canonical (value : Json) : List Char := written canonicalStyle value

/-- The text of a value as it is sent over a wire. -/
def render (value : Json) : String := String.ofList (written plainStyle value)

/-! ### Text over several lines -/

/-- A line break, and the blanks in front of what stands at a depth. -/
def lineAt (depth : Nat) : List Char := '\n' :: List.replicate (2 * depth) ' '

/-- Parts between brackets, each on a line of its own. -/
def bracketed (depth : Nat) (opening closing : Char) (parts : List (List Char)) : List Char :=
  if parts.isEmpty then [opening, closing]
  else
    opening :: lineAt (depth + 1) ++ joined (',' :: lineAt (depth + 1)) parts ++ lineAt depth ++
      [closing]

mutual

/-- The text of a value at a depth, over several lines. -/
def laidOut (depth : Nat) : Json → List Char
  | .list items => bracketed depth '[' ']' (laidOutItems (depth + 1) items)
  | .object fields => bracketed depth '\x7b' '\x7d' (laidOutFields (depth + 1) fields)
  | .null => written plainStyle .null
  | .bool b => written plainStyle (.bool b)
  | .int n => written plainStyle (.int n)
  | .float x => written plainStyle (.float x)
  | .text s => written plainStyle (.text s)
termination_by structural value => value

/-- The texts of the items of a list at a depth. -/
def laidOutItems (depth : Nat) : List Json → List (List Char)
  | [] => []
  | item :: rest => laidOut depth item :: laidOutItems depth rest
termination_by structural items => items

/-- The texts of the fields of an object at a depth. -/
def laidOutFields (depth : Nat) : List (String × Json) → List (List Char)
  | [] => []
  | field :: rest => laidOutField depth field :: laidOutFields depth rest
termination_by structural fields => fields

def laidOutField (depth : Nat) : String × Json → List Char
  | (key, value) => writtenText key.toList ++ plainStyle.colon ++ laidOut depth value
termination_by structural field => field

end

/-- The text of a value over several lines, as it is shown to a reader. -/
def layout (value : Json) : String := String.ofList (laidOut 0 value)

end Lifecycle.Json
