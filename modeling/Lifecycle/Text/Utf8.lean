/-!
# UTF-8

A character is one to four octets. Reading octets that are no UTF-8 gives the replacement character
for each longest run that could have started a character, and for each octet that cannot start one.
-/

namespace Lifecycle.Text.Utf8

/-! ### Writing -/

def octets (c : Char) : List Nat :=
  let n := c.toNat
  if n < 0x80 then [n]
  else if n < 0x800 then [0xC0 + n / 0x40, 0x80 + n % 0x40]
  else if n < 0x10000 then [0xE0 + n / 0x1000, 0x80 + n / 0x40 % 0x40, 0x80 + n % 0x40]
  else
    [0xF0 + n / 0x40000, 0x80 + n / 0x1000 % 0x40, 0x80 + n / 0x40 % 0x40, 0x80 + n % 0x40]

def encode (cs : List Char) : List Nat := cs.flatMap octets

/-! ### Reading -/

def continues (b : Nat) : Bool := 0x80 ≤ b && b < 0xC0

/-- Whether the second octet may follow the first one of a character of three octets: no shorter
form and no half of a pair. -/
def pairOfThree (a b : Nat) : Bool :=
  0xE0 ≤ a && a < 0xF0 && continues b && (a != 0xE0 || 0xA0 ≤ b) && (a != 0xED || b < 0xA0)

/-- Whether the second octet may follow the first one of a character of four octets: no shorter form
and no code point above U+10FFFF. -/
def pairOfFour (a b : Nat) : Bool :=
  0xF0 ≤ a && a < 0xF5 && continues b && (a != 0xF0 || 0x90 ≤ b) && (a != 0xF4 || b < 0x90)

/-- What stands for octets that are no character. -/
def replacement : Char := '\ufffd'

def decode : List Nat → List Char
  | [] => []
  | [a] => [if a < 0x80 then Char.ofNat a else replacement]
  | [a, b] =>
    if a < 0x80 then Char.ofNat a :: decode [b]
    else if 0xC2 ≤ a && a < 0xE0 && continues b then
      [Char.ofNat ((a - 0xC0) * 0x40 + (b - 0x80))]
    else if pairOfThree a b || pairOfFour a b then [replacement]
    else replacement :: decode [b]
  | [a, b, c] =>
    if a < 0x80 then Char.ofNat a :: decode [b, c]
    else if 0xC2 ≤ a && a < 0xE0 && continues b then
      Char.ofNat ((a - 0xC0) * 0x40 + (b - 0x80)) :: decode [c]
    else if pairOfThree a b then
      if continues c then
        [Char.ofNat ((a - 0xE0) * 0x1000 + (b - 0x80) * 0x40 + (c - 0x80))]
      else replacement :: decode [c]
    else if pairOfFour a b then
      if continues c then [replacement] else replacement :: decode [c]
    else replacement :: decode [b, c]
  | a :: b :: c :: d :: rest =>
    if a < 0x80 then Char.ofNat a :: decode (b :: c :: d :: rest)
    else if 0xC2 ≤ a && a < 0xE0 && continues b then
      Char.ofNat ((a - 0xC0) * 0x40 + (b - 0x80)) :: decode (c :: d :: rest)
    else if pairOfThree a b then
      if continues c then
        Char.ofNat ((a - 0xE0) * 0x1000 + (b - 0x80) * 0x40 + (c - 0x80)) :: decode (d :: rest)
      else replacement :: decode (c :: d :: rest)
    else if pairOfFour a b then
      if continues c then
        if continues d then
          Char.ofNat ((a - 0xF0) * 0x40000 + (b - 0x80) * 0x1000 + (c - 0x80) * 0x40 + (d - 0x80))
            :: decode rest
        else replacement :: decode (d :: rest)
      else replacement :: decode (c :: d :: rest)
    else replacement :: decode (b :: c :: d :: rest)

end Lifecycle.Text.Utf8
