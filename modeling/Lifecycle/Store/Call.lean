import Lifecycle.Store.Memory

/-!
# Calls to the store in memory

A call is what reaches the store, as it is logged. Some calls can be made to fail: a rule names the
calls it is about, how many of them it lets pass first, how many it fails then, and with what fault.
-/

namespace Lifecycle

/-! ### Calls -/

/-- The operations of a store. -/
inductive Method where
  | search
  | byIds
  | fieldCapabilities
  | upsert
  | delete
  deriving DecidableEq, Repr

namespace Method

def all : List Method := [.search, .byIds, .fieldCapabilities, .upsert, .delete]

def name : Method → String
  | .search => "search"
  | .byIds => "get_by_ids"
  | .fieldCapabilities => "field_capabilities"
  | .upsert => "upsert"
  | .delete => "delete"

def ofName? (s : String) : Option Method := all.find? fun method => method.name == s

/-- Whether an operation changes the contents. -/
def writes : Method → Bool
  | .upsert | .delete => true
  | .search | .byIds | .fieldCapabilities => false

end Method

inductive Call where
  | search (index : String) (asked : Search)
  | byIds (index : String) (ids : List String)
  | fieldCapabilities (index : String) (fields : List String)
  | upsert (index id : String) (body : Table Json)
  | delete (index id : String)
  deriving DecidableEq, Repr

namespace Call

def method : Call → Method
  | .search .. => .search
  | .byIds .. => .byIds
  | .fieldCapabilities .. => .fieldCapabilities
  | .upsert .. => .upsert
  | .delete .. => .delete

def index : Call → String
  | .search index .. => index
  | .byIds index .. => index
  | .fieldCapabilities index .. => index
  | .upsert index .. => index
  | .delete index .. => index

def toJson (call : Call) : Json :=
  let fields : Table Json :=
    match call with
    | .search _ asked =>
      [("query", asked.query), ("sort", asked.sort), ("from", .int asked.first),
       ("size", .int asked.size), ("source", asked.source)]
    | .byIds _ ids => [("ids", Json.texts ids)]
    | .fieldCapabilities _ fields => [("fields", Json.texts fields)]
    | .upsert _ id body => [("id", .text id), ("body", .object body)]
    | .delete _ id => [("id", .text id)]
  .object (("call", .text call.method.name) :: ("index", .text call.index) :: fields)

end Call

/-! ### Failures -/

structure FailureRule where
  method : Method
  /-- The index, or none for all of them. -/
  index : Option String
  /-- How many calls pass before one fails. -/
  skip : Nat
  /-- How many calls fail. -/
  times : Nat
  fault : Fault
  deriving DecidableEq, Repr

namespace FailureRule

def concerns (rule : FailureRule) (call : Call) : Bool :=
  rule.method == call.method && (rule.index.isNone || rule.index == some call.index)

/-- The rules after a call, and the fault that the first rule gives it that lets no more calls pass.
The rules behind that one do not see the call. -/
def applyAll (call : Call) : List FailureRule → List FailureRule × Option Fault
  | [] => ([], none)
  | rule :: rest =>
    if rule.concerns call && rule.skip == 0 && rule.times != 0 then
      ({ rule with times := rule.times - 1 } :: rest, some rule.fault)
    else
      let rule := if rule.concerns call then { rule with skip := rule.skip - 1 } else rule
      let (rest, fault) := applyAll call rest
      (rule :: rest, fault)

end FailureRule

end Lifecycle
