import Lifecycle.Table
import Lifecycle.Text.DecimalDigit
import Lifecycle.Text.Hex
import Lifecycle.Text.Quoted

/-!
# Text templates

A template is text with fields in braces; a doubled brace stands for itself. A field is a name,
then perhaps `!` and a conversion (`r` and `a` quote the value, `s` keeps it), then perhaps `:` and
a layout (fill, alignment, width, precision). A layout may hold fields itself, one level deep.

`Template.names` lists the names of the fields of a template, `Template.render` puts the values of
named arguments in place of the fields.
-/

namespace Lifecycle.Text

/-! ### Faults -/

inductive TemplateFault where
  /-- The text is no template, or a conversion or layout does not exist. -/
  | malformed (message : String)
  /-- No argument has this name. -/
  | unknownName (name : String)
  /-- An argument was referred to by position; all arguments are named. -/
  | noArgument (position : Nat)
  /-- A part of a value was asked for by name. -/
  | noPart (name : String)
  /-- A character of a value was asked for by something that is no number. -/
  | badIndex
  /-- A character behind the end of a value was asked for. -/
  | noCharacter
  deriving DecidableEq, Repr

namespace Template

/-! ### Reading -/

structure Field where
  /-- The name as it stands in the template. -/
  name : List Char
  conversion : Option Char
  /-- What stands behind the colon. -/
  layout : List Char
  /-- Whether the layout holds fields. -/
  nested : Bool
  deriving DecidableEq, Repr

/-- The name of a field up to the character that ends it, and the characters behind that one. Within
square brackets no character ends it. -/
def fieldName : Bool → List Char → Except TemplateFault (List Char × Char × List Char)
  | _, [] => .error (.malformed "expected '\x7d' before end of string")
  | inside, c :: rest =>
    if !inside && c == '\x7b' then .error (.malformed "unexpected '\x7b' in field name")
    else if !inside && (c == '\x7d' || c == ':' || c == '!') then .ok ([], c, rest)
    else
      match fieldName ((inside || c == '[') && c != ']') rest with
      | .ok (name, ending, rest) => .ok (c :: name, ending, rest)
      | .error fault => .error fault

/-- The layout of a field up to its closing brace, whether it holds fields, and the characters
behind it. `depth` counts the braces opened within the layout. -/
def fieldLayout : Nat → List Char → Except TemplateFault (List Char × Bool × List Char)
  | _, [] => .error (.malformed "unmatched '\x7b' in format spec")
  | depth, c :: rest =>
    if c == '\x7d' && depth == 0 then .ok ([], false, rest)
    else
      let depth := if c == '\x7b' then depth + 1 else if c == '\x7d' then depth - 1 else depth
      match fieldLayout depth rest with
      | .ok (layout, nested, rest) => .ok (c :: layout, nested || c == '\x7b', rest)
      | .error fault => .error fault

/-- A field with a layout, given what stands before the colon. -/
def withLayout (name : List Char) (conversion : Option Char) (rest : List Char) :
    Except TemplateFault (Field × List Char) :=
  match fieldLayout 0 rest with
  | .ok (layout, nested, rest) => .ok (⟨name, conversion, layout, nested⟩, rest)
  | .error fault => .error fault

/-- A field whose opening brace has been read, and the characters behind it. -/
def field (cs : List Char) : Except TemplateFault (Field × List Char) :=
  match fieldName false cs with
  | .error fault => .error fault
  | .ok (name, ending, rest) =>
    if ending == '\x7d' then .ok (⟨name, none, [], false⟩, rest)
    else if ending == ':' then withLayout name none rest
    else
      match rest with
      | [] =>
        .error (.malformed "end of string while looking for conversion specifier")
      | [_] => .error (.malformed "unmatched '\x7b' in format spec")
      | conversion :: c :: rest =>
        if c == '\x7d' then .ok (⟨name, some conversion, [], false⟩, rest)
        else if c == ':' then withLayout name (some conversion) rest
        else .error (.malformed "expected ':' after conversion specifier")

def isBrace (c : Char) : Bool := c == '\x7b' || c == '\x7d'

/-- The literal text at the front of a template that is not empty, the field behind it if there is
one, and the characters behind that. -/
def step (cs : List Char) : Except TemplateFault (List Char × Option Field × List Char) :=
  match cs.span (!isBrace ·) with
  | (literal, []) => .ok (literal, none, [])
  | (literal, c :: rest) =>
    match rest with
    | d :: more =>
      if c == d then .ok (literal ++ [c], none, more)
      else if c == '\x7d' then
        .error (.malformed "Single '\x7d' encountered in format string")
      else
        match field rest with
        | .ok (found, behind) => .ok (literal, some found, behind)
        | .error fault => .error fault
    | [] =>
      .error (.malformed ("Single '" ++ c.toString ++ "' encountered in format string"))

/-- The fields of a template, in at most `fuel` steps. -/
def fieldsWithin : Nat → List Char → Except TemplateFault (List Field)
  | 0, _ => .ok []
  | _ + 1, [] => .ok []
  | fuel + 1, cs => do
    let (_, found, rest) ← step cs
    let more ← fieldsWithin fuel rest
    pure (found.toList ++ more)

/-- The fields of a template. Each step takes at least one character. -/
def fields (template : String) : Except TemplateFault (List Field) :=
  fieldsWithin (template.length + 1) template.toList

/-- The names of the fields of a template that have one. -/
def names (template : String) : Except TemplateFault (List String) := do
  let found ← fields template
  pure ((found.map fun field => String.ofList field.name).filter (!·.isEmpty))

/-! ### Numbers in a template -/

/-- The digits at the front, the number they are, and what stands behind them. -/
def spanNumber (cs : List Char) : Nat × Nat × List Char :=
  let (digits, rest) := cs.span fun c => (digitValue? c).isSome
  (digits.length, digits.foldl (fun n c => 10 * n + (digitValue? c).getD 0) 0, rest)

def numberBound : Nat := 0x8000000000000000

/-- The fault of a number that is too large. -/
def tooManyDigits : TemplateFault := .malformed "Too many decimal digits in format string"

/-- The number that a name is, if it is one. -/
def numberOf (name : List Char) : Except TemplateFault (Option Nat) :=
  match spanNumber name with
  | (count, n, []) =>
    if count == 0 then .ok none
    else if n < numberBound then .ok (some n) else .error tooManyDigits
  | _ => .ok none

/-! ### Layouts -/

structure Layout where
  fill : Char := ' '
  /-- One of `<`, `>`, `^` and `=`. -/
  alignment : Char := '<'
  sign : Option Char := none
  positiveZero : Bool := false
  alternate : Bool := false
  width : Option Nat := none
  grouping : Option Char := none
  precision : Option Nat := none
  kind : Char := 's'

def isAlignment (c : Char) : Bool := c == '<' || c == '>' || c == '=' || c == '^'

/-- A flag at the front that may be missing, and what stands behind it. -/
def flag (c : Char) (cs : List Char) : Bool × List Char :=
  match cs with
  | d :: rest => if c == d then (true, rest) else (false, cs)
  | [] => (false, [])

/-- A width at the front that may be missing, and what stands behind it. -/
def widthAt (cs : List Char) : Except TemplateFault (Option Nat × List Char) :=
  match spanNumber cs with
  | (0, _, _) => .ok (none, cs)
  | (_, n, rest) => if n < numberBound then .ok (some n, rest) else .error tooManyDigits

/-- A precision at the front that may be missing, and what stands behind it. -/
def precisionAt (cs : List Char) : Except TemplateFault (Option Nat × List Char) :=
  match cs with
  | '.' :: rest =>
    match widthAt rest with
    | .ok (none, _) => .error (.malformed "Format specifier missing precision")
    | found => found
  | _ => .ok (none, cs)

/-- The grouping mark at the front that may be missing, and what stands behind it. -/
def groupingAt (cs : List Char) : Except TemplateFault (Option Char × List Char) :=
  match cs with
  | ',' :: '_' :: _ | '_' :: ',' :: _ => .error (.malformed "Cannot specify both ',' and '_'.")
  | ',' :: rest => .ok (some ',', rest)
  | '_' :: rest => .ok (some '_', rest)
  | _ => .ok (none, cs)

/-- A character of a layout as a message shows it. -/
def shown (c : Char) : String :=
  if 32 < c.toNat && c.toNat < 127 then c.toString
  else "\\x" ++ String.ofList (Nat.toDigits 16 c.toNat)

/-- Checks that a grouping mark goes with the kind of layout. -/
def checkGrouping (grouping : Option Char) (kind : Char) : Except TemplateFault Unit :=
  match grouping with
  | none => .ok ()
  | some mark =>
    let numeric := "defgEG%F\x00".toList.contains kind
    let binary := mark == '_' && "boxX".toList.contains kind
    if numeric || binary then .ok ()
    else
      .error (.malformed ("Cannot specify '" ++ mark.toString ++ "' with '" ++ shown kind ++ "'."))

def Layout.read (spec : List Char) : Except TemplateFault Layout := do
  let (fill, alignment, rest) :=
    match spec with
    | c :: d :: rest =>
      if isAlignment d then (some c, some d, rest)
      else if isAlignment c then (none, some c, d :: rest)
      else (none, none, spec)
    | [c] => if isAlignment c then (none, some c, []) else (none, none, spec)
    | [] => (none, none, [])
  let (sign, rest) :=
    match rest with
    | c :: more => if c == ' ' || c == '+' || c == '-' then (some c, more) else (none, rest)
    | [] => (none, [])
  let (positiveZero, rest) := flag 'z' rest
  let (alternate, rest) := flag '#' rest
  let (zeroFill, rest) := if fill.isSome then (false, rest) else flag '0' rest
  let (width, rest) ← widthAt rest
  let (grouping, rest) ← groupingAt rest
  let (precision, rest) ← precisionAt rest
  let kind ← match rest with
    | [] => .ok 's'
    | [c] => .ok c
    | _ =>
      .error (.malformed
        ("Invalid format specifier '" ++ String.ofList spec ++ "' for object of type 'str'"))
  checkGrouping grouping kind
  pure
    { fill := if zeroFill then '0' else fill.getD ' '
      alignment := alignment.getD '<'
      sign, positiveZero, alternate, width, grouping, precision, kind }

def Layout.check (layout : Layout) : Except TemplateFault Unit :=
  if layout.kind != 's' then
    .error (.malformed
      ("Unknown format code '" ++ shown layout.kind ++ "' for object of type 'str'"))
  else if layout.sign == some ' ' then
    .error (.malformed "Space not allowed in string format specifier")
  else if layout.sign.isSome then
    .error (.malformed "Sign not allowed in string format specifier")
  else if layout.positiveZero then
    .error (.malformed
      "Negative zero coercion (z) not allowed in string format specifier")
  else if layout.alternate then
    .error (.malformed "Alternate form (#) not allowed in string format specifier")
  else if layout.alignment == '=' then
    .error (.malformed "'=' alignment not allowed in string format specifier")
  else .ok ()

/-- A text cut to the precision of a layout and filled up to its width. -/
def Layout.apply (layout : Layout) (value : List Char) : List Char :=
  let value := (layout.precision.map value.take).getD value
  let missing := layout.width.getD 0 - value.length
  let before :=
    if layout.alignment == '>' then missing
    else if layout.alignment == '^' then missing / 2
    else 0
  List.replicate before layout.fill ++ value ++ List.replicate (missing - before) layout.fill

/-- A text laid out as a description says; an empty one keeps it as it is. -/
def laidOut (spec value : List Char) : Except TemplateFault (List Char) := do
  if spec.isEmpty then return value
  let layout ← Layout.read spec
  layout.check
  pure (layout.apply value)

/-! ### Values -/

def converted (conversion : Option Char) (value : List Char) : Except TemplateFault (List Char) :=
  match conversion with
  | none => .ok value
  | some 's' => .ok value
  | some 'r' => .ok (quoted (String.ofList value)).toList
  | some 'a' => .ok (quotedAscii (String.ofList value)).toList
  | some c => .error (.malformed ("Unknown conversion specifier " ++ shown c))

/-- The part of a value that the rest of a field's name asks for, in at most `fuel` steps: `[n]` is
the character at a position, and texts have no parts with a name. -/
def partWithin : Nat → List Char → List Char → Except TemplateFault (List Char)
  | 0, value, _ => .ok value
  | _ + 1, value, [] => .ok value
  | fuel + 1, value, c :: rest =>
    if c == '.' then
      match rest.takeWhile fun d => d != '.' && d != '[' with
      | [] => .error (.malformed "Empty attribute in format string")
      | name => .error (.noPart (String.ofList name))
    else if c == '[' then
      match rest.span (· != ']') with
      | (_, []) => .error (.malformed "Missing ']' in format string")
      | (name, _ :: behind) => do
        let index ← numberOf name
        if name.isEmpty then .error (.malformed "Empty attribute in format string")
        else
          match index with
          | none => .error .badIndex
          | some n =>
            match value[n]? with
            | some c => partWithin fuel [c] behind
            | none => .error .noCharacter
    else
      .error (.malformed "Only '.' or '[' may follow ']' in format field specifier")

/-- The value a field's name stands for. A name that is empty or a number refers to an argument by
position. -/
def valueOf (arguments : Table String) (name : List Char) : Except TemplateFault (List Char) := do
  let (first, rest) := name.span fun c => c != '.' && c != '['
  match ← numberOf first with
  | some n => .error (.noArgument n)
  | none =>
    if first.isEmpty then .error (.noArgument 0)
    else
      match arguments.get? (String.ofList first) with
      | none => .error (.unknownName (String.ofList first))
      | some value => partWithin (rest.length + 1) value.toList rest

/-! ### Rendering -/

/-- A field with the value of its argument in place, given how the fields in a layout are rendered.
-/
def renderField (inner : List Char → Except TemplateFault (List Char)) (arguments : Table String)
    (field : Field) : Except TemplateFault (List Char) := do
  let value ← valueOf arguments field.name
  let value ← converted field.conversion value
  let layout ← if field.nested then inner field.layout else .ok field.layout
  laidOut layout value

/-- A template with values in place of its fields, in at most `fuel` steps. -/
def renderWithin (inner : List Char → Except TemplateFault (List Char)) (arguments : Table String) :
    Nat → List Char → Except TemplateFault (List Char)
  | 0, _ => .ok []
  | _ + 1, [] => .ok []
  | fuel + 1, cs => do
    let (literal, found, rest) ← step cs
    let shown ← match found with
      | some field => renderField inner arguments field
      | none => .ok []
    let more ← renderWithin inner arguments fuel rest
    pure (literal ++ shown ++ more)

/-- A template whose layouts may hold fields `depth` levels deep, rendered. -/
def renderNested (arguments : Table String) : Nat → List Char → Except TemplateFault (List Char)
  | 0, _ => .error (.malformed "Max string recursion exceeded")
  | depth + 1, cs => renderWithin (renderNested arguments depth) arguments (cs.length + 1) cs

/-- The template with the values of named arguments in place of its fields. -/
def render (template : String) (arguments : Table String) : Except TemplateFault String :=
  (renderNested arguments 2 template.toList).map String.ofList

end Template

end Lifecycle.Text
