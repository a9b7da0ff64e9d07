import Lifecycle.Console.Session

/-!
# The console program

The thin layer around `Console.run`. Values and questions go to the standard output. The standard
error and the standard input stand for the network: a request is written as one line of JSON, and
its reply is read as one line, an object with the `status` and the `text` of an answer, or with the
words of a `failure` to connect. The answer to a question is read from the standard input as well.

A session is a function of the replies and of what is typed, so it is run again from the start
whenever one of them has come, and only what was not shown before is shown.
-/

namespace Lifecycle.Console

/-- The reply in a line; what is no reply counts as an empty answer. -/
def replyOfLine (line : String) : Reply :=
  match Json.read line with
  | .ok (.object fields) =>
    match Json.under fields "failure", Json.under fields "status", Json.under fields "text" with
    | .text words, _, _ => .broken (.disconnected words)
    | _, .int status, .text body => .answer status body
    | _, _, .text body => .answer 200 body
    | _, .int status, _ => .answer status ""
    | _, _, _ => .answer 200 ""
  | _ => .answer 200 ""

def Printed.toText : Printed → String
  | .value json => json.layout ++ "\n"
  | .words s => s

/-- Runs a command line with the replies that have come and what was typed, of which `shown` parts
of the output were shown before, until it needs nothing more. -/
partial def converse (arguments : List String) (replies : List Reply) (typed : String)
    (shown : Nat) : IO UInt32 := do
  let (outcome, transcript) := run arguments replies typed
  let printed := if transcript.requests.length > replies.length then [] else transcript.printed
  for part in printed.drop shown do
    (← IO.getStdout).putStr part.toText
  (← IO.getStdout).flush
  let shown := max shown printed.length
  match transcript.requests[replies.length]?, outcome with
  | some request, _ => do
    (← IO.getStderr).putStrLn request.toJson.render
    let line ← (← IO.getStdin).getLine
    if line.isEmpty then return 1
    converse arguments (replies ++ [replyOfLine line]) typed shown
  | none, .ok code => return code.toUInt32
  | none, .error .endOfInput => do
    let line ← (← IO.getStdin).getLine
    if line.isEmpty then return 1
    converse arguments replies (typed ++ line) shown
  | none, .error fault => do
    (← IO.getStderr).putStrLn fault.message
    return 1

end Lifecycle.Console

def main (arguments : List String) : IO UInt32 := Lifecycle.Console.converse arguments [] "" 0
