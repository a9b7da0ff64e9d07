import Lifecycle.Clock
import Lifecycle.Settings.Connection
import Lifecycle.Settings.Content
import Lifecycle.Space.Fields
import Lifecycle.Store.Call
import Lifecycle.Store.Wire

/-!
# Work on a deployment

A deployment is what stays fixed while the service runs: its settings and where its documents are.
The world is what changes: the contents of the store in memory, the replies the network still has,
the resolved space fields, the clock, and logs of what was called and sent. `Work` is an effect on
a world under a deployment that may end in a fault; what was done to the world before the fault
stays done.
-/

namespace Lifecycle

/-! ### What stays fixed -/

inductive Backend where
  /-- In memory. -/
  | memory
  /-- In a cluster that is reached over HTTP. -/
  | cluster
  deriving DecidableEq, Repr

structure Deployment where
  settings : ContentSettings := {}
  connection : Connection := {}
  backend : Backend := .memory
  /-- A change set that stands in for the ledger, as a value that is checked when it is read. -/
  fixedChanges : Option Json := none
  /-- What the store in memory says an index can do with its fields, in place of what its mapping
  says. -/
  capabilities : Table Json := []
  /-- Whether calls that only read are logged too. -/
  traced : Bool := false
  deriving Repr

/-! ### What changes -/

structure World where
  memory : Memory := {}
  rules : List FailureRule := []
  replies : List Reply := []
  /-- The resolved space fields of indexes. -/
  spaceFields : Table SpaceFields := []
  clock : Instant := 0
  /-- What was sent, in order. -/
  exchanges : List Exchange := []
  /-- What was called, in order. -/
  calls : List Call := []
  deriving Repr

/-! ### Effects -/

/-- An effect on a world under a deployment that may end in a fault. -/
abbrev Work := ReaderT Deployment (ExceptT Fault (StateM World))

namespace Work

variable {α : Type}

def ofExcept (result : Except Fault α) : Work α :=
  match result with
  | .ok value => pure value
  | .error fault => throw fault

/-- The outcome of work in place of a fault. -/
def attempt (work : Work α) : Work (Except Fault α) :=
  tryCatch (do let value ← work; pure (.ok value)) fun fault => pure (.error fault)

/-- The outcome of work on a world, and the world afterwards. -/
def runOn (work : Work α) (deployment : Deployment) (world : World) : Except Fault α × World :=
  work deployment world

def settings : Work ContentSettings := do
  let deployment ← read
  pure deployment.settings

/-- The point in time, each later than the one before. -/
def now : Work Instant := do
  let world ← get
  set { world with clock := world.clock + 1 }
  pure world.clock

def exchange (request : Exchange) : Work Reply := do
  let world ← get
  let (reply, rest) := Reply.next world.replies
  set { world with replies := rest, exchanges := world.exchanges ++ [request] }
  pure reply

/-- Logs a call to the store in memory if it is to be logged, and fails if a rule says so. -/
def call (call : Call) : Work Unit := do
  let deployment ← read
  let world ← get
  let logged := call.method.writes || deployment.traced
  let (rules, fault) := FailureRule.applyAll call world.rules
  set { world with
    rules
    calls := if logged then world.calls ++ [call] else world.calls }
  match fault with
  | some fault => throw fault
  | none => pure ()

end Work

end Lifecycle
