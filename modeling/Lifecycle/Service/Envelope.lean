import Lifecycle.Work

/-!
# What endpoints answer

Every endpoint answers with an envelope that says whether the operation succeeded, with its result
or with the failure and its category. The HTTP status of the answer follows from the envelope.
-/

namespace Lifecycle

/-- The outcome of an operation as it is told to a client. -/
inductive Envelope where
  | success (response : Json)
  | failure (message : String) (category : Category)
  deriving DecidableEq, Repr

namespace Envelope

def ofFault (fault : Fault) : Envelope := .failure fault.message fault.category

def ofOutcome : Except Fault Json → Envelope
  | .ok response => .success response
  | .error fault => ofFault fault

/-- The HTTP status of an answer with an envelope. -/
def status : Envelope → Nat
  | .success _ => 200
  | .failure _ category => category.status

def toJson : Envelope → Json
  | .success response =>
    .object [("ok", .bool true), ("response", response), ("error", .null), ("error_type", .null)]
  | .failure message category =>
    .object
      [("ok", .bool false), ("response", .null), ("error", .text message),
       ("error_type", .text category.name)]

end Envelope

def respond (work : Work Json) : Work Envelope := do
  let outcome ← Work.attempt work
  pure (Envelope.ofOutcome outcome)

end Lifecycle
