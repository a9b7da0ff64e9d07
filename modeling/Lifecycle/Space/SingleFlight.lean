import Lifecycle.Space.Fields

/-!
# One probe for many callers

Callers that ask for the space fields of the same index while it is being probed share the probe.
The resolver is a state machine: a caller asks or gives up, a probe ends, and some time later its
callbacks run, which take it out of flight and tell those who wait for it. In between, the fields
are kept already while the probe is still in flight. A caller that gives up does not stop the
probe; a probe that is cancelled leaves its callers without an answer and the index as it was; any
other end of a probe is kept and given to all who wait for it.
-/

namespace Lifecycle.SingleFlight

/-! ### States and events -/

/-- What has become of a caller. One is `cancelled` by the end of its probe, and `gaveUp` by
itself. -/
inductive Phase where
  | waiting
  | served (fields : SpaceFields)
  | cancelled
  | gaveUp
  deriving DecidableEq, Repr

structure Caller where
  index : String
  /-- The number of the probe that it shares; none for a caller that is served from what is kept. -/
  probe : Option Nat
  phase : Phase
  deriving DecidableEq, Repr

/-- What has become of a probe. The fields are those that it gives to its callers. -/
inductive Status where
  | running
  | answered (fields : SpaceFields)
  | cancelled
  deriving DecidableEq, Repr

structure Probe where
  index : String
  status : Status
  deriving DecidableEq, Repr

inductive Outcome where
  | answered (answer : Json)
  | failed
  | cancelled
  deriving DecidableEq, Repr

/-- The state of a resolver: what is kept, which probes are in flight, who has asked. -/
structure State where
  cache : Table SpaceFields := []
  /-- The numbers of the probes in flight, in the order in which they started. -/
  inFlight : Table Nat := []
  /-- All probes that were ever started, in order. The number of a probe is its position. -/
  probes : List Probe := []
  callers : List Caller := []
  deriving DecidableEq, Repr

/-- The indexes of all probes that were ever started, in order. -/
def State.started (state : State) : List String := state.probes.map (·.index)

inductive Event where
  /-- A caller asks for an index. -/
  | call (index : String)
  /-- The caller at a position gives up. -/
  | giveUp (caller : Nat)
  /-- The probe of a number ends. -/
  | finish (probe : Nat) (outcome : Outcome)
  /-- The callbacks of a probe that has ended run. -/
  | settle (probe : Nat)
  deriving DecidableEq, Repr

/-! ### Steps -/

/-- What a caller comes to that shares a probe. -/
def Status.phase : Status → Phase
  | .running => .waiting
  | .answered fields => .served fields
  | .cancelled => .cancelled

def State.phaseOf (state : State) (number : Nat) : Phase :=
  (state.probes[number]?.map fun probe => probe.status.phase).getD .waiting

/-- A caller asks for an index: it is served from what is kept, or shares the probe in flight, which
is started if there is none. -/
def ask (state : State) (index : String) : State :=
  match state.cache.get? index with
  | some fields => { state with callers := state.callers ++ [⟨index, none, .served fields⟩] }
  | none =>
    match state.inFlight.get? index with
    | some number =>
      { state with callers := state.callers ++ [⟨index, some number, state.phaseOf number⟩] }
    | none =>
      { state with
        inFlight := state.inFlight.put index state.probes.length
        probes := state.probes ++ [⟨index, .running⟩]
        callers := state.callers ++ [⟨index, some state.probes.length, .waiting⟩] }

def Caller.leave (caller : Caller) : Caller :=
  if caller.phase = .waiting then { caller with phase := .gaveUp } else caller

def abandon (state : State) (position : Nat) : State :=
  { state with callers := state.callers.modify position Caller.leave }

/-- The fields that a probe ends with; none if it is cancelled. -/
def Outcome.fields? (candidates : List String) : Outcome → Option SpaceFields
  | .answered answer => some (SpaceFields.ofAnswer candidates answer)
  | .failed => some (SpaceFields.fallback candidates)
  | .cancelled => none

/-- The probe of an index ends, with fields, which are kept if none were before, or without. -/
def conclude (state : State) (number : Nat) (index : String) : Option SpaceFields → State
  | some fields =>
    let kept := (state.cache.get? index).getD fields
    { state with
      cache := state.cache.put index kept
      probes := state.probes.set number ⟨index, .answered kept⟩ }
  | none => { state with probes := state.probes.set number ⟨index, .cancelled⟩ }

/-- A probe ends. One that does not run cannot. -/
def finish (candidates : List String) (state : State) (number : Nat) (outcome : Outcome) : State :=
  match state.probes[number]? with
  | some ⟨index, .running⟩ => conclude state number index (outcome.fields? candidates)
  | _ => state

/-- A caller that waits for a probe comes to a phase; all others stay. -/
def Caller.told (number : Nat) (phase : Phase) (caller : Caller) : Caller :=
  if caller.probe = some number ∧ caller.phase = .waiting then { caller with phase } else caller

/-- The callbacks of a probe: it is taken out of flight, unless another one is in its place, and
those who wait for it are told. A probe that runs calls nobody back. -/
def settle (state : State) (number : Nat) : State :=
  match state.probes[number]? with
  | none | some ⟨_, .running⟩ => state
  | some ⟨index, status⟩ =>
    { state with
      inFlight :=
        if state.inFlight.get? index = some number then state.inFlight.remove index
        else state.inFlight
      callers := state.callers.map (Caller.told number status.phase) }

/-- The state after an event. -/
def step (candidates : List String) (state : State) : Event → State
  | .call index => ask state index
  | .giveUp caller => abandon state caller
  | .finish probe outcome => finish candidates state probe outcome
  | .settle probe => settle state probe

/-! ### Runs -/

def run (candidates : List String) (state : State) (events : List Event) : State :=
  events.foldl (step candidates) state

/-- The events that end some probes one after another, each with its callbacks, and the outcomes
left for later ones. A probe without an outcome fails. -/
def finishes : List Nat → List Outcome → List Event × List Outcome
  | [], outcomes => ([], outcomes)
  | probe :: rest, outcomes =>
    let (events, left) := finishes rest (outcomes.drop 1)
    (.finish probe (outcomes.head?.getD .failed) :: .settle probe :: events, left)

/-- A group of callers asks at once, perhaps the first of them gives up, and then all probes end. -/
def runGroup (candidates : List String) (cancelFirst : Bool) (state : State)
    (outcomes : List Outcome) (group : List String) : State × List Outcome :=
  let before := state.callers.length
  let asked := run candidates state (group.map .call)
  let asked := if cancelFirst then step candidates asked (.giveUp before) else asked
  let (events, left) := finishes asked.inFlight.values outcomes
  (run candidates asked events, left)

def runGroups (candidates : List String) (cancelFirst : Bool) :
    State → List Outcome → List (List String) → State
  | state, _, [] => state
  | state, outcomes, group :: rest =>
    let (state, outcomes) := runGroup candidates cancelFirst state outcomes group
    runGroups candidates cancelFirst state outcomes rest

end Lifecycle.SingleFlight
