import Lifecycle.Text.Hex
import Lifecycle.Text.Utf8

/-!
# Percent-encoding of URL segments

A segment of a URL is written with unreserved characters alone: ASCII letters and digits and the
four marks `-`, `.`, `_` and `~`. Every other octet of its UTF-8 form becomes a percent sign with
two hexadecimal digits.
-/

namespace Lifecycle.Text.Percent

/-! ### Writing -/

def unreserved (b : Nat) : Bool :=
  (0x30 ≤ b && b ≤ 0x39) || (0x41 ≤ b && b ≤ 0x5A) || (0x61 ≤ b && b ≤ 0x7A) ||
    b == 0x2D || b == 0x2E || b == 0x5F || b == 0x7E

def encodedOctet (b : Nat) : List Char :=
  if unreserved b then [Char.ofNat b]
  else ['%', upperHexDigit (b / 16), upperHexDigit (b % 16)]

def encodeChars (cs : List Char) : List Char := (Utf8.encode cs).flatMap encodedOctet

def encode (s : String) : String := String.ofList (encodeChars s.toList)

/-! ### Reading -/

/-- The octets of encoded characters. A percent sign without two digits stands for itself. -/
def octets : List Char → List Nat
  | [] => []
  | [c] => Utf8.octets c
  | [c, d] => Utf8.octets c ++ octets [d]
  | c :: d :: e :: rest =>
    if c == '%' then
      match hexValue? d, hexValue? e with
      | some high, some low => (16 * high + low) :: octets rest
      | _, _ => Utf8.octets c ++ octets (d :: e :: rest)
    else Utf8.octets c ++ octets (d :: e :: rest)

def decodeChars (cs : List Char) : List Char := Utf8.decode (octets cs)

def decode (s : String) : String := String.ofList (decodeChars s.toList)

end Lifecycle.Text.Percent
