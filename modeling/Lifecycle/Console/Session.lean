import Lifecycle.Console.Arguments
import Lifecycle.Console.Summary
import Lifecycle.Store.Wire

/-!
# Sessions of the console

A session runs one command against the service: it sends requests, prints values, and may ask for a
confirmation. What was sent and printed is kept in order, also when the session ends in a fault. A
promotion is sent only after its preview, and unless it was confirmed on the command line, only
after the answer `y` or `yes`.
-/

namespace Lifecycle.Console

/-! ### What a session does -/

inductive Printed where
  | value (json : Json)
  | words (s : String)
  deriving DecidableEq, Repr

structure Transcript where
  replies : List Reply := []
  /-- What will be typed. -/
  typed : List Char := []
  requests : List Exchange := []
  printed : List Printed := []
  deriving Repr

/-- An effect in a session that may end in a fault. -/
abbrev Session := ExceptT Fault (StateM Transcript)

def print (value : Json) : Session Unit :=
  modify fun t => { t with printed := t.printed ++ [.value value] }

/-- Asks a question and gives the line that is typed. -/
def ask (question : String) : Session String := do
  modify fun t => { t with printed := t.printed ++ [.words question] }
  let t ← get
  if t.typed.isEmpty then throw .endOfInput
  let (line, rest) := t.typed.span (· != '\n')
  set { t with typed := rest.drop 1 }
  pure (String.ofList line)

def send (request : Exchange) : Session Reply := do
  let t ← get
  let (reply, rest) := Reply.next t.replies
  set { t with replies := rest, requests := t.requests ++ [request] }
  pure reply

def timeout : Int := 30

def errorValue (words : String) : Json := .object [("error", .text words)]

/-- The status and the value of a reply to a request of a URL. Without a value there is no status,
and the error takes its place. -/
def outcome (url : String) : Reply → Except Fault (Option Int × Json)
  | .broken fault =>
    if fault.isTransport then
      .ok (none, errorValue ("request to " ++ url ++ " failed: " ++ fault.message))
    else .error fault
  | .answer status body =>
    match Json.read body with
    | .ok value => .ok (some status, value)
    | .error _ =>
      .ok (none, errorValue ("unexpected non-JSON response from " ++ url ++
        " (status " ++ toString status ++ ")"))

/-- Calls the service with a body, null for none. -/
def call (method url : String) (body : Json) : Session (Option Int × Json) := do
  let reply ← send { method, url, json := body, timeout := .int timeout }
  match outcome url reply with
  | .ok found => pure found
  | .error fault => throw fault

def ofExcept {α : Type} (result : Except Fault α) : Session α :=
  match result with
  | .ok value => pure value
  | .error fault => throw fault

/-! ### Commands -/

/-- The exit code of a command whose last call had a status. -/
def exitCode (status : Option Int) : Nat := if status == some 200 then 0 else 1

/-- Calls the service, prints what comes back, and exits with the code for the status. -/
def callAndPrint (method url : String) (body : Json) : Session Nat := do
  let (status, value) ← call method url body
  print value
  pure (exitCode status)

/-- Whether a preview says that there is nothing to promote, the policy included. -/
def nothingToPromote (preview : Json) : Except Fault Bool := do
  let nothing ← part preview "nothing_to_promote"
  if !nothing.truthy then return false
  let promote ← member preview "promote"
  let changes ← member promote "changes"
  let policy ← part changes "policy"
  pure (!policy.truthy)

def saysYes (answer : String) : Bool := ["y", "yes"].contains (Text.lower (Text.trim answer))

/-- Shows a preview and asks whether to promote it. -/
def confirm (preview : Json) : Session Bool := do
  let shown ← ofExcept (summary preview)
  print shown
  let answer ← ask "Promote these changes? [y/N] "
  pure (saysYes answer)

/-- The value printed when there is nothing to promote. -/
def nothingPromoted : Json :=
  .object [("promoted", .bool false), ("reason", .text "nothing to promote")]

/-- Promotes a preview, or the changes of some types of it. -/
def promotePreview (apiUrl only : String) (confirmed : Bool) (preview : Json) : Session Nat := do
  if ← ofExcept (nothingToPromote preview) then
    print nothingPromoted
    return 0
  let agreed ← if confirmed then pure true else confirm preview
  if !agreed then return 1
  let payload ← ofExcept (selection preview (toList (.text only)))
  callAndPrint "POST" (apiUrl ++ "/promote") payload

/-- Fetches the preview of a space and goes on with it; a refusal is printed instead. -/
def withPreview (apiUrl space : String) (next : Json → Session Nat) : Session Nat := do
  let (status, body) ← call "GET" (apiUrl ++ "/promote/" ++ space) .null
  if status != some 200 then
    print body
    return 1
  let preview ← ofExcept (member body "response")
  next preview

def runCommand (apiUrl : String) : Command → Session Nat
  | .listSpaces => callAndPrint "GET" (apiUrl ++ "/spaces") .null
  | .preview space =>
    withPreview apiUrl space fun preview => do
      let shown ← ofExcept (summary preview)
      print shown
      pure 0
  | .promote space only confirmed =>
    withPreview apiUrl space (promotePreview apiUrl only confirmed)
  | .rootDecoder space none =>
    callAndPrint "GET" (apiUrl ++ "/policies/" ++ space ++ "/root-decoder") .null
  | .rootDecoder space (some decoder) =>
    callAndPrint "PUT" (apiUrl ++ "/policies/" ++ space ++ "/root-decoder")
      (.object [("root_decoder", .text decoder)])
  | .reorder space integrations =>
    callAndPrint "PUT" (apiUrl ++ "/policies/" ++ space ++ "/integrations")
      (.object [("integrations", Json.texts (toList (.text integrations)))])

/-- The exit code of a command line that is wrong, and of one that asks for help. -/
def Refusal.exitCode : Refusal → Nat
  | .usage => 2
  | .help => 0

def session (arguments : List String) : Session Nat :=
  match parse arguments with
  | .error refusal => pure refusal.exitCode
  | .ok invocation => runCommand (Text.trimEnd '/' invocation.apiUrl) invocation.command

/-- The exit code of a command line or the fault that ended it, and all that was done. -/
def run (arguments : List String) (replies : List Reply) (typed : String) :
    Except Fault Nat × Transcript :=
  session arguments { replies, typed := typed.toList }

end Lifecycle.Console
