import Lifecycle.Text.Hex
import Lifecycle.Text.Printable

/-!
# Quoted text in messages

A message shows a text between single quotes, or between double quotes when it holds a single quote
and no double one. The backslash and the quote in use are escaped, line feed, carriage return and
tab have short escapes, and a character that is not printable is written by its code point in two,
four or eight hexadecimal digits.
-/

namespace Lifecycle.Text

/-- A code point in two, four or eight hexadecimal digits, the fewest that hold it. -/
def codeEscape (code : Nat) : List Char :=
  if code ≤ 0xFF then '\\' :: 'x' :: lowerHex 2 code
  else if code ≤ 0xFFFF then '\\' :: 'u' :: lowerHex 4 code
  else '\\' :: 'U' :: lowerHex 8 code

/-- One character between the given quotes, when `plain` says which may stand as themselves. -/
def quotedChar (plain : Char → Bool) (quote c : Char) : List Char :=
  if c == quote || c == '\\' then ['\\', c]
  else if c == '\n' then ['\\', 'n']
  else if c == '\r' then ['\\', 'r']
  else if c == '\t' then ['\\', 't']
  else if plain c then [c]
  else codeEscape c.toNat

def quoteFor (cs : List Char) : Char :=
  if cs.contains '\'' && !cs.contains '"' then '"' else '\''

/-- Text between quotes, when `plain` says which characters may stand as themselves. -/
def quotedBy (plain : Char → Bool) (cs : List Char) : List Char :=
  let quote := quoteFor cs
  quote :: cs.flatMap (quotedChar plain quote) ++ [quote]

def quoted (s : String) : String := String.ofList (quotedBy isPrintable s.toList)

def quotedAscii (s : String) : String :=
  String.ofList (quotedBy (fun c => 0x20 ≤ c.toNat && c.toNat < 0x7F) s.toList)

end Lifecycle.Text
