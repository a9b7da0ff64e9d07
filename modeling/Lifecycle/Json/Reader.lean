import Lifecycle.Json
import Lifecycle.Text.Hex

/-!
# Reading JSON

`Json.read` reads a text as one JSON value. Beyond the standard it accepts the words `NaN`,
`Infinity` and `-Infinity`. Of several fields under one key the last one counts, at the position of
the first. A text that is no JSON is refused at the first character that cannot stand where it does,
with the reason and the position of that character.

Values of any depth and integers of any length are read: limits that a runtime sets (on how deep
values are nested, and of 4300 digits on the text of an integer) are left out.
-/

namespace Lifecycle

/-! ### Refusals -/

inductive ReadReason where
  | expectingValue
  | expectingKey
  | expectingColon
  | expectingComma
  | extraData
  | unterminatedText
  | controlCharacter
  | invalidEscape
  | invalidUnit
  | byteOrderMark
  deriving DecidableEq, Repr

def ReadReason.message : ReadReason → String
  | .expectingValue => "Expecting value"
  | .expectingKey => "Expecting property name enclosed in double quotes"
  | .expectingColon => "Expecting ':' delimiter"
  | .expectingComma => "Expecting ',' delimiter"
  | .extraData => "Extra data"
  | .unterminatedText => "Unterminated string starting at"
  | .controlCharacter => "Invalid control character at"
  | .invalidEscape => "Invalid \\escape"
  | .invalidUnit => "Invalid \\uXXXX escape"
  | .byteOrderMark => "Unexpected UTF-8 BOM (decode using utf-8-sig)"

/-- A refused text: the reason, and how many characters stand before the place of refusal. -/
structure ReadFault where
  reason : ReadReason
  position : Nat
  line : Nat
  column : Nat
  deriving DecidableEq, Repr

def ReadFault.message (fault : ReadFault) : String :=
  fault.reason.message ++ ": line " ++ toString fault.line ++ " column " ++ toString fault.column ++
    " (char " ++ toString fault.position ++ ")"

def ReadFault.at (reason : ReadReason) (cs : List Char) (position : Nat) : ReadFault :=
  let before := cs.take position
  { reason, position
    line := before.count '\n' + 1
    column := (before.reverse.takeWhile (· != '\n')).length + 1 }

namespace Json.Reader

/-! ### Steps

A step reads from the front of the characters left and gives its result with the rest. A refusal
carries the number of characters left at its place. -/

/-- A refusal, and the number of characters left at its place. -/
abbrev Refusal := ReadReason × Nat

/-- A refusal at the front of the characters left. -/
def refuse {α : Type} (reason : ReadReason) (cs : List Char) : Except Refusal α :=
  .error (reason, cs.length)

def isGap (c : Char) : Bool := c == ' ' || c == '\t' || c == '\n' || c == '\r'

def skipGap (cs : List Char) : List Char := cs.dropWhile isGap

/-! ### Numbers -/

def digitsValue (digits : List Char) : Nat :=
  digits.foldl (fun n c => 10 * n + (c.toNat - '0'.toNat)) 0

def spanDigits (cs : List Char) : List Char × List Char := cs.span Char.isDigit

/-- A point with digits behind it, if that is what is at the front. -/
def fraction? : List Char → Option (List Char × List Char)
  | '.' :: cs =>
    match spanDigits cs with
    | ([], _) => none
    | found => some found
  | _ => none

/-- The sign at the front, and whether it is a minus. -/
def sign : List Char → Bool × List Char
  | '-' :: cs => (true, cs)
  | '+' :: cs => (false, cs)
  | cs => (false, cs)

/-- An exponent, if that is what is at the front. -/
def exponent? : List Char → Option (Int × List Char)
  | 'e' :: cs | 'E' :: cs =>
    let (negative, cs) := sign cs
    match spanDigits cs with
    | ([], _) => none
    | (digits, rest) =>
      let n : Int := digitsValue digits
      some (if negative then -n else n, rest)
  | _ => none

/-- The digits before the point: one zero, or digits that do not start with zero. -/
def whole? : List Char → Option (List Char × List Char)
  | '0' :: cs => some (['0'], cs)
  | cs =>
    match spanDigits cs with
    | ([], _) => none
    | found => some found

/-- A number: whole, or of floating point when it has a fraction or an exponent. -/
def number? (cs : List Char) : Option (Json × List Char) := do
  let (negative, unsigned) :=
    match cs with
    | '-' :: rest => (true, rest)
    | _ => (false, cs)
  let (whole, rest) ← whole? unsigned
  let (fraction, rest, hasFraction) :=
    match fraction? rest with
    | some (digits, rest) => (digits, rest, true)
    | none => ([], rest, false)
  match exponent? rest, hasFraction with
  | none, false =>
    let n : Int := digitsValue whole
    pure (.int (if negative then -n else n), rest)
  | none, true =>
    pure (.float (Binary64.ofDecimal negative (digitsValue (whole ++ fraction))
      (-fraction.length)), rest)
  | some (e, rest), _ =>
    pure (.float (Binary64.ofDecimal negative (digitsValue (whole ++ fraction))
      (e - fraction.length)), rest)

/-! ### Text -/

/-- The value of four hexadecimal digits at the front. At least the closing quote must be behind
them. -/
def unit? : List Char → Option (Nat × List Char)
  | a :: b :: c :: d :: next :: rest => do
    let a ← Text.hexValue? a
    let b ← Text.hexValue? b
    let c ← Text.hexValue? c
    let d ← Text.hexValue? d
    pure (a * 0x1000 + b * 0x100 + c * 0x10 + d, next :: rest)
  | _ => none

/-- The character of a UTF-16 unit that may be the first of a pair. A unit of a pair that stands
alone is read as the replacement character. -/
def unitChar (unit : Nat) (rest : List Char) : Char × List Char :=
  if 0xD800 ≤ unit && unit < 0xDC00 then
    match rest with
    | '\\' :: 'u' :: more =>
      match unit? more with
      | some (second, rest') =>
        if 0xDC00 ≤ second && second < 0xE000 then
          (Char.ofNat (0x10000 + (unit - 0xD800) * 0x400 + (second - 0xDC00)), rest')
        else ('\ufffd', rest)
      | none => ('\ufffd', rest)
    | _ => ('\ufffd', rest)
  else if 0xDC00 ≤ unit && unit < 0xE000 then ('\ufffd', rest)
  else (Char.ofNat unit, rest)

def shortEscape? : Char → Option Char
  | '"' => some '"'
  | '\\' => some '\\'
  | '/' => some '/'
  | 'b' => some '\x08'
  | 'f' => some '\x0c'
  | 'n' => some '\n'
  | 'r' => some '\r'
  | 't' => some '\t'
  | _ => none

/-- The characters up to the closing quote, in reverse order before `done`. `opening` is the number
of characters left at the opening quote; every step drops a character, so `fuel` characters at most
are read. -/
def textBody (opening : Nat) : Nat → List Char → List Char → Except Refusal (String × List Char)
  | 0, _, _ => .error (.unterminatedText, opening)
  | _ + 1, _, [] => .error (.unterminatedText, opening)
  | _ + 1, done, '"' :: rest => .ok (String.ofList done.reverse, rest)
  | _ + 1, _, ['\\'] => .error (.unterminatedText, opening)
  | fuel + 1, done, '\\' :: 'u' :: rest =>
    match unit? rest with
    | some (unit, rest') =>
      let (c, rest'') := unitChar unit rest'
      textBody opening fuel (c :: done) rest''
    | none => refuse .invalidUnit ('u' :: rest)
  | fuel + 1, done, '\\' :: c :: rest =>
    match shortEscape? c with
    | some e => textBody opening fuel (e :: done) rest
    | none => refuse .invalidEscape ('\\' :: c :: rest)
  | fuel + 1, done, c :: rest =>
    if c.toNat ≤ 0x1F then refuse .controlCharacter (c :: rest)
    else textBody opening fuel (c :: done) rest

def text (rest : List Char) : Except Refusal (String × List Char) :=
  textBody (rest.length + 1) (rest.length + 1) [] rest

/-! ### Values -/

def words : List (List Char × Json) :=
  [("null".toList, .null), ("true".toList, .bool true), ("false".toList, .bool false),
   ("NaN".toList, .float .undefined), ("Infinity".toList, .float (.infinite false)),
   ("-Infinity".toList, .float (.infinite true))]

/-- The word at the front, if there is one. -/
def word? (cs : List Char) : Option (Json × List Char) :=
  (words.find? fun entry => entry.1.isPrefixOf cs).map fun entry =>
    (entry.2, cs.drop entry.1.length)

mutual

/-- A value at the very front. -/
def value : Nat → List Char → Except Refusal (Json × List Char)
  | 0, cs => refuse .expectingValue cs
  | fuel + 1, cs =>
    match cs with
    | '"' :: rest => do
      let (s, rest) ← text rest
      pure (.text s, rest)
    | '\x7b' :: rest =>
      match skipGap rest with
      | '\x7d' :: rest => .ok (.object [], rest)
      | rest => do
        let (fields, rest) ← fields fuel [] rest
        pure (.object fields, rest)
    | '[' :: rest =>
      match skipGap rest with
      | ']' :: rest => .ok (.list [], rest)
      | rest => do
        let (items, rest) ← items fuel [] rest
        pure (.list items, rest)
    | _ =>
      match word? cs with
      | some found => .ok found
      | none =>
        match number? cs with
        | some found => .ok found
        | none => refuse .expectingValue cs

/-- The items of a list up to its closing bracket, the ones read before in reverse order. -/
def items : Nat → List Json → List Char → Except Refusal (List Json × List Char)
  | 0, _, cs => refuse .expectingValue cs
  | fuel + 1, done, cs => do
    let (item, rest) ← value fuel cs
    match skipGap rest with
    | ']' :: rest => pure ((item :: done).reverse, rest)
    | ',' :: rest => items fuel (item :: done) (skipGap rest)
    | rest => refuse .expectingComma rest

/-- The fields of an object up to its closing brace, over the ones read before. -/
def fields : Nat → Table Json → List Char → Except Refusal (Table Json × List Char)
  | 0, _, cs => refuse .expectingKey cs
  | fuel + 1, done, cs => do
    let (key, rest) ← match cs with
      | '"' :: rest => text rest
      | _ => refuse .expectingKey cs
    let rest ← match skipGap rest with
      | ':' :: rest => pure (skipGap rest)
      | rest => refuse .expectingColon rest
    let (item, rest) ← value fuel rest
    let done := Table.put done key item
    match skipGap rest with
    | '\x7d' :: rest => pure (done, rest)
    | ',' :: rest => fields fuel done (skipGap rest)
    | rest => refuse .expectingComma rest

end

/-- One value with blanks around it and nothing behind. -/
def whole (cs : List Char) : Except Refusal Json := do
  match cs with
  | '\ufeff' :: _ => refuse .byteOrderMark cs
  | _ => pure ()
  let (result, rest) ← value (2 * cs.length + 2) (skipGap cs)
  match skipGap rest with
  | [] => pure result
  | rest => refuse .extraData rest

end Json.Reader

/-- The value a text is, or where and why it is none. -/
def Json.read (s : String) : Except ReadFault Json :=
  let cs := s.toList
  match Json.Reader.whole cs with
  | .ok result => .ok result
  | .error (reason, left) => .error (ReadFault.at reason cs (cs.length - left))

end Lifecycle
