import Lifecycle.Fault
import Lifecycle.Json.Writer

/-!
# Exchanges over HTTP

What is sent and what comes back. The network is a list of replies: each request takes the next one,
and when there are none left the connection is gone.
-/

namespace Lifecycle

inductive Reply where
  /-- An answer with a status and the text of its body. -/
  | answer (status : Int) (body : String)
  /-- No answer, but a fault. -/
  | broken (fault : Fault)
  deriving DecidableEq, Repr

structure Exchange where
  method : String
  url : String
  /-- The body, null for none. -/
  json : Json := .null
  /-- The query parameters, null for none. -/
  params : Json := .null
  /-- Seconds, as a number. -/
  timeout : Json
  /-- Whether certificates are verified, and the user and password; nothing is sent about them where
  they are not part of a session. -/
  session : Option (Bool × Option (String × String)) := none
  deriving DecidableEq, Repr

namespace Exchange

def sessionFields : Option (Bool × Option (String × String)) → Table Json
  | none => []
  | some (verify, credentials) =>
    [("verify", .bool verify),
     ("auth",
      match credentials with
      | some (user, password) => .list [.text user, .text password]
      | none => .null)]

def toJson (exchange : Exchange) : Json :=
  .object
    ([("method", .text exchange.method), ("url", .text exchange.url), ("json", exchange.json),
      ("params", exchange.params), ("timeout", exchange.timeout)] ++
     sessionFields exchange.session)

end Exchange

/-- What comes back of a request when no replies are left. -/
def Reply.exhausted : Reply := .broken (.disconnected "script exhausted")

/-- The next of some replies and those behind it. -/
def Reply.next : List Reply → Reply × List Reply
  | [] => (.exhausted, [])
  | reply :: rest => (reply, rest)

/-- The text of a body that is a JSON value. -/
def Reply.bodyOf (value : Json) : String := value.render

end Lifecycle
