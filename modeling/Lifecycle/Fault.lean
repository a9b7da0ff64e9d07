import Lifecycle.Json.Display
import Lifecycle.Json.Reader
import Lifecycle.Schema
import Lifecycle.Text.Template

/-!
# Faults

Everything that can end an operation early. A fault is a cause with what is needed to word it:
`Fault.message` is the wording, `Fault.category` says how a client is told about it.

The causes fall into three groups: what the rules of the lifecycle refuse, what the store or the
network fails to do, and values of an unexpected shape met on the way.
-/

namespace Lifecycle

/-! ### Categories -/

inductive Category where
  | notAllowed
  | notFound
  | preconditionFailed
  | staleReference
  | validation
  | backendFailure
  deriving DecidableEq, Repr

def Category.name : Category → String
  | .notAllowed => "not_allowed"
  | .notFound => "not_found"
  | .preconditionFailed => "precondition_failed"
  | .staleReference => "stale_reference"
  | .validation => "validation"
  | .backendFailure => "upstream_failure"

/-- The HTTP status of an answer that reports a failure. -/
def Category.status : Category → Nat
  | .notAllowed => 403
  | .notFound => 404
  | .preconditionFailed => 409
  | .staleReference => 409
  | .validation => 422
  | .backendFailure => 502

/-! ### Causes -/

inductive Fault where
  /-- The document store refused or failed a request, perhaps with an HTTP status. -/
  | store (message : String) (status : Option Int)
  /-- A service that content is tracked by failed. -/
  | service (message : String)
  /-- A space does not permit an action. -/
  | notAllowed (space action : String)
  /-- A space has no policy. -/
  | policyNotFound (space : String)
  /-- A space needs a root decoder before it can be promoted. -/
  | decoderRequired (space : String)
  /-- The decoder chosen as root decoder is not in the space. -/
  | decoderNotFound (space decoder : String)
  /-- The sources of planned changes are gone. -/
  | stale (type : String) (ids : List String)
  /-- A step of a promotion failed. -/
  | step (name : String) (cause : Fault)
  /-- A failure without more structure than its wording. -/
  | failed (message : String)
  /-- A value was refused, in these words. -/
  | refused (message : String)
  /-- No connection. -/
  | disconnected (message : String)
  /-- No answer in time. -/
  | timedOut (message : String)
  /-- A text is no JSON. -/
  | unreadable (cause : ReadFault)
  /-- A value does not fit a model. -/
  | misfit (model : String) (details : List Detail)
  /-- A value names no space. -/
  | unknownSpace (value : Json)
  /-- A text is not the name of any member of an enumeration. -/
  | unknownName (enumeration : String) (name : String)
  /-- A query uses a clause that the store does not know. -/
  | unsupportedQuery (query : Json)
  /-- A setting in the environment is no JSON. -/
  | badVariable (field : String)
  /-- An object lacks a key that is needed. -/
  | absentKey (key : String)
  /-- A position lies behind the end of what it is a position in. -/
  | outOfRange (message : String)
  /-- A number is too large for what is to be made of it. -/
  | overflow (message : String)
  /-- A value that is no object was asked for one of its parts. -/
  | noPart (value : Json) (part : String)
  /-- A value is of a type that cannot be used where it stands. -/
  | mistyped (message : String)
  /-- The operation was cancelled. -/
  | cancelled
  /-- An answer was awaited and the input had ended. -/
  | endOfInput
  deriving DecidableEq, Repr

/-! ### Wording -/

/-- The word for the type of a value in a message. -/
def Json.typeName : Json → String
  | .null => "NoneType"
  | .bool _ => "bool"
  | .int _ => "int"
  | .float _ => "float"
  | .text _ => "str"
  | .list _ => "list"
  | .object _ => "dict"

namespace Fault

/-- The heading of a list of complaints about a value. -/
def misfitHeading (count : Nat) (model : String) : String :=
  toString count ++ " validation error" ++ (if count == 1 then "" else "s") ++ " for " ++ model

def message : Fault → String
  | .store message _ => message
  | .service message => message
  | .notAllowed space action =>
    "Action '" ++ action ++ "' is not allowed on space '" ++ space ++ "'."
  | .policyNotFound space => "Policy not found for space '" ++ space ++ "'."
  | .decoderRequired space =>
    "Space '" ++ space ++ "' has no root decoder defined. " ++
      "Select or create a root decoder before promoting."
  | .decoderNotFound space decoder =>
    "Decoder '" ++ decoder ++ "' does not exist in space '" ++ space ++ "'."
  | .stale type ids =>
    "Source " ++ type ++ " " ++ String.intercalate ", " ids ++
      " no longer exist. Refresh the promotion and retry."
  | .step name cause => "Promotion failed while processing " ++ name ++ ": " ++ cause.message
  | .failed message => message
  | .refused message => message
  | .disconnected message => message
  | .timedOut message => message
  | .unreadable cause => cause.message
  | .misfit model details => misfitHeading details.length model
  | .unknownSpace value => "Unknown space: " ++ value.nested
  | .unknownName enumeration name => Text.quoted name ++ " is not a valid " ++ enumeration
  | .unsupportedQuery query => "Unsupported query: " ++ query.display
  | .badVariable field => "error parsing value for field \"" ++ field ++ "\""
  | .absentKey key => Text.quoted key
  | .outOfRange message => message
  | .overflow message => message
  | .noPart value part =>
    "'" ++ value.typeName ++ "' object has no attribute '" ++ part ++ "'"
  | .mistyped message => message
  | .cancelled => ""
  | .endOfInput => "EOF when reading a line"

/-! ### Classes of faults -/

/-- How a fault is reported to a client: a refused value as a fault of the request, whatever the
rules of the lifecycle do not name as a failure behind the service. -/
def category : Fault → Category
  | .notAllowed .. => .notAllowed
  | .policyNotFound .. | .decoderNotFound .. => .notFound
  | .decoderRequired .. => .preconditionFailed
  | .stale .. => .staleReference
  | .refused .. | .unreadable .. | .misfit .. | .unknownSpace .. | .unknownName ..
  | .unsupportedQuery .. | .badVariable .. => .validation
  | .store .. | .service .. | .step .. | .failed .. | .disconnected .. | .timedOut ..
  | .absentKey .. | .outOfRange .. | .overflow .. | .noPart .. | .mistyped .. | .cancelled
  | .endOfInput =>
    .backendFailure

def isPermission : Fault → Bool
  | .notAllowed .. => true
  | _ => false

/-- Whether the fault is that something looked up is not there. -/
def isLookup : Fault → Bool
  | .policyNotFound .. | .decoderNotFound .. => true
  | _ => false

/-- Whether the fault lies in the transport: no connection, or no answer in time. -/
def isTransport : Fault → Bool
  | .disconnected .. | .timedOut .. => true
  | _ => false

/-! ### Unexpected shapes -/

/-- A value was to be gone through item by item and has no items. -/
def notIterable (value : Json) : Fault :=
  .mistyped ("'" ++ value.typeName ++ "' object is not iterable")

/-- A value was to be searched for an item and cannot hold any. -/
def notContainer (value : Json) : Fault :=
  .mistyped ("argument of type '" ++ value.typeName ++ "' is not iterable")

/-! ### Faults of templates -/

def ofTemplate : Text.TemplateFault → Fault
  | .malformed message => .refused message
  | .unknownName name => .absentKey name
  | .noArgument position =>
    .outOfRange ("Replacement index " ++ toString position ++
      " out of range for positional args tuple")
  | .noPart name => .noPart (.text "") name
  | .badIndex => .mistyped "string indices must be integers, not 'str'"
  | .noCharacter => .outOfRange "string index out of range"

end Fault

/-- The value of a checked value, or the fault that lists the complaints about it. -/
def Checked.orMisfit {α : Type} (model : String) : Checked α → Except Fault α
  | .good value => .ok value
  | .bad details => .error (.misfit model details)

end Lifecycle
