import Lifecycle.Text.DecimalDigit

/-!
# The command line of the console

A command line is the common options, a command, and the options of the command. Long options may
be shortened as long as only one option of the same group fits, and a value may follow an equals
sign. An argument that starts with a dash is an option unless it is a negative number or has a
blank in it.

A shortened option that fits several is refused before anything else is read; all other refusals,
and requests for help, come in the order of the arguments.
-/

namespace Lifecycle.Console

/-! ### Options -/

/-- An option: its name, and whether a value follows. -/
structure OptionSpec where
  name : String
  takesValue : Bool
  deriving DecidableEq, Repr

abbrev Given := List (String × String)

inductive Refusal where
  /-- It is wrong. -/
  | usage
  /-- It asks for help. -/
  | help
  deriving DecidableEq, Repr

inductive Kind where
  /-- A value or a command. -/
  | plain
  /-- The mark behind which all arguments are plain. -/
  | separator
  /-- A known option, perhaps with a value behind an equals sign. -/
  | known (option : OptionSpec) (value : Option String)
  /-- A request for help. -/
  | help
  /-- An option that is not known. -/
  | unknown
  /-- The beginning of several options. -/
  | ambiguous
  /-- A request for help with a value. -/
  | wrong
  deriving DecidableEq, Repr

def helpOption : OptionSpec := ⟨"--help", false⟩

/-- The beginning of an argument up to its first equals sign, and what stands behind it. -/
def splitValue (argument : String) : String × Option String :=
  match argument.toList.span (· != '=') with
  | (name, _ :: value) => (String.ofList name, some (String.ofList value))
  | (_, []) => (argument, none)

/-- A known option as the kind of its argument. -/
def knownKind (option : OptionSpec) (value : Option String) : Kind :=
  if option == helpOption then if value.isSome then .wrong else .help else .known option value

/-- The kind of an argument that starts with two dashes: an option by its name, or by a beginning
that no other option has. -/
def longKind (options : List OptionSpec) (argument : String) : Kind :=
  match options.find? fun option => option.name == argument with
  | some option => knownKind option none
  | none =>
    let (name, value) := splitValue argument
    match options.find? fun option => option.name == name with
    | some option => knownKind option value
    | none =>
      match options.filter fun option => name.toList.isPrefixOf option.name.toList with
      | [] => if argument.toList.contains ' ' then .plain else .unknown
      | [option] => knownKind option value
      | _ => .ambiguous

/-- The kind of an argument whose first letter behind one dash asks for help. The letter may be
repeated, and what else is behind it is passed over unless it starts like a value or an option. -/
def shortHelpKind (rest : List Char) : Kind :=
  match rest.dropWhile (· == 'h') with
  | '=' :: _ | '-' :: _ => .wrong
  | _ => .help

/-- Whether the characters behind a dash are those of a negative number. One line break may stand
behind them. -/
def isNegativeNumber (cs : List Char) : Bool :=
  let cs := if cs.getLast? == some '\n' then cs.dropLast else cs
  match cs.span Text.isDecimalDigit with
  | (digits, []) => !digits.isEmpty
  | (_, '.' :: fraction) => !fraction.isEmpty && fraction.all Text.isDecimalDigit
  | _ => false

def kindOf (options : List OptionSpec) (argument : String) : Kind :=
  match argument.toList with
  | '-' :: '-' :: [] => .separator
  | '-' :: '-' :: _ => longKind (helpOption :: options) argument
  | '-' :: 'h' :: rest => shortHelpKind rest
  | '-' :: c :: rest =>
    if isNegativeNumber (c :: rest) || (c :: rest).contains ' ' then .plain else .unknown
  | _ => .plain

/-! ### Reading options -/

/-- Checks that no argument is the beginning of several options. -/
def checkKinds (options : List OptionSpec) : List String → Except Refusal Unit
  | [] => .ok ()
  | argument :: rest =>
    match kindOf options argument with
    | .separator => .ok ()
    | .ambiguous => .error .usage
    | _ => checkKinds options rest

/-- The options at the front, and the arguments from the first plain one on. `extra` says whether
something that is not known was passed over. -/
def readOptions (options : List OptionSpec) :
    List String → Given → Bool → Except Refusal (Given × List String × Bool)
  | [], given, extra => .ok (given, [], extra)
  | argument :: rest, given, extra =>
    match kindOf options argument with
    | .plain => .ok (given, argument :: rest, extra)
    | .separator => .error .usage
    | .help => .error .help
    | .ambiguous | .wrong => .error .usage
    | .unknown => readOptions options rest given true
    | .known option (some value) =>
      if option.takesValue then readOptions options rest (given ++ [(option.name, value)]) extra
      else .error .usage
    | .known option none =>
      if option.takesValue then
        match rest with
        | value :: rest =>
          if kindOf options value == .plain then
            readOptions options rest (given ++ [(option.name, value)]) extra
          else .error .usage
        | [] => .error .usage
      else readOptions options rest (given ++ [(option.name, "")]) extra

/-- The options of a command, of which nothing but options may follow. A plain argument is wrong,
but a later request for help goes before it. -/
def readAll (options : List OptionSpec) :
    Nat → List String → Given → Bool → Except Refusal Given
  | 0, _, _, _ => .error .usage
  | fuel + 1, arguments, given, extra => do
    match ← readOptions options arguments given extra with
    | (given, [], extra) => if extra then .error .usage else .ok given
    | (given, _ :: rest, _) => readAll options fuel rest given true

/-- The value of an option; of several the last one counts. -/
def Given.value? (given : Given) (name : String) : Option String :=
  (given.reverse.find? fun entry => entry.1 == name).map (·.2)

/-- The value of an option that must be given. -/
def Given.required (given : Given) (name : String) : Except Refusal String :=
  match given.value? name with
  | some value => .ok value
  | none => .error .usage

/-! ### Commands -/

inductive Command where
  | listSpaces
  | preview (space : String)
  | promote (space only : String) (confirmed : Bool)
  | rootDecoder (space : String) (decoder : Option String)
  | reorder (space integrations : String)
  deriving DecidableEq, Repr

structure Invocation where
  /-- The URL of the service. -/
  apiUrl : String
  command : Command
  deriving DecidableEq, Repr

/-- The URL of the service where none is given. -/
def defaultApiUrl : String := "http://localhost:8080"

def commonOptions : List OptionSpec := [⟨"--api-url", true⟩]

/-- The options of a command, if there is a command of that name. -/
def commandOptions? : String → Option (List OptionSpec)
  | "list-spaces" => some []
  | "preview" => some [⟨"--space", true⟩]
  | "promote" => some [⟨"--space", true⟩, ⟨"--only", true⟩, ⟨"--yes", false⟩]
  | "root-decoder" => some [⟨"--space", true⟩, ⟨"--set", true⟩]
  | "reorder-integrations" => some [⟨"--space", true⟩, ⟨"--integrations", true⟩]
  | _ => none

def command (name : String) (given : Given) : Except Refusal Command := do
  match name with
  | "list-spaces" => pure .listSpaces
  | "preview" => do
    let space ← given.required "--space"
    pure (.preview space)
  | "promote" => do
    let space ← given.required "--space"
    pure (.promote space ((given.value? "--only").getD "") (given.value? "--yes").isSome)
  | "root-decoder" => do
    let space ← given.required "--space"
    pure (.rootDecoder space (given.value? "--set"))
  | "reorder-integrations" => do
    let space ← given.required "--space"
    let integrations ← given.required "--integrations"
    pure (.reorder space integrations)
  | _ => .error .usage

def parse (arguments : List String) : Except Refusal Invocation := do
  checkKinds commonOptions arguments
  let (common, rest, extra) ← readOptions commonOptions arguments [] false
  match rest with
  | [] => .error .usage
  | name :: rest =>
    match commandOptions? name with
    | none => .error .usage
    | some options => do
      checkKinds options rest
      let given ← readAll options (rest.length + 1) rest [] false
      let found ← command name given
      if extra then .error .usage
      else
        pure { apiUrl := (common.value? "--api-url").getD defaultApiUrl, command := found }

end Lifecycle.Console
