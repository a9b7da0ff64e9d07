import Lifecycle.Service.Endpoint
import Lifecycle.Text.Percent

/-!
# The HTTP interface

A request is routed by its decoded path and its method, its query parameters or its body are
checked, and the operation behind the route answers with an envelope. A path with slashes at its
end that leads nowhere is taken without them. What is wrong with parameters or body is answered as
a list of complaints with their places.
-/

namespace Lifecycle.Service

/-! ### Requests and answers -/

structure Request where
  method : String
  /-- The path, percent-encoded. -/
  path : String
  params : List (String × String) := []
  /-- The text of the body, empty for none. -/
  body : String := ""
  deriving DecidableEq, Repr

structure Answer where
  status : Nat
  body : Json
  deriving DecidableEq, Repr

def placeJson : Place → Json
  | .field name => .text name
  | .item position => .int position

def detailJson (detail : Detail) : Json :=
  let words : Table Json :=
    match detail.complaint with
    | .rejected message => [("msg", .text ("Value error, " ++ message))]
    | _ => []
  .object
    ([("type", .text detail.complaint.name), ("loc", .list (detail.path.map placeJson))] ++ words)

def Answer.ofEnvelope (envelope : Envelope) : Answer := ⟨envelope.status, envelope.toJson⟩

/-- The answer to a request that is refused as it is. -/
def Answer.ofDetails (details : List Detail) : Answer :=
  ⟨422, .object [("detail", .list (details.map detailJson))]⟩

def notFound : Answer := ⟨404, .object [("detail", .text "Not Found")]⟩

/-- The answer where routes lead with other methods only. -/
def methodNotAllowed : Answer := ⟨405, .object [("detail", .text "Method Not Allowed")]⟩

/-! ### Routes -/

inductive Route where
  | spaces
  | preview (space : String)
  | promote
  | policies
  | policy (space : String)
  | updatePolicy (space : String)
  | reorder (space : String)
  | rootDecoder (space : String)
  | setRootDecoder (space : String)
  | candidates (space : String)
  | content (type : String)
  deriving DecidableEq, Repr

/-- Whether the last segment of a path is a word; a line feed behind the word does not count. -/
def isLast (segment : String) (word : String) : Bool := segment == word || segment == word ++ "\n"

/-- The routes that a path leads to, each with its method. -/
def routesAt (segments : List String) : List (String × Route) :=
  match segments with
  | ["", a] =>
    if isLast a "spaces" then [("GET", .spaces)]
    else if isLast a "promote" then [("POST", .promote)]
    else if isLast a "policies" then [("GET", .policies)]
    else []
  | ["", a, name] =>
    if name.isEmpty then []
    else if a == "promote" then [("GET", .preview name)]
    else if a == "policies" then [("GET", .policy name), ("PUT", .updatePolicy name)]
    else if a == "content" then [("GET", .content name)]
    else []
  | ["", "policies", name, b] =>
    if name.isEmpty then []
    else if isLast b "integrations" then [("PUT", .reorder name)]
    else if isLast b "root-decoder" then
      [("GET", .rootDecoder name), ("PUT", .setRootDecoder name)]
    else []
  | ["", "policies", name, "root-decoder", c] =>
    if name.isEmpty then []
    else if isLast c "candidates" then [("GET", .candidates name)]
    else []
  | _ => []

/-- The segments of a path without the slashes at its end. -/
def withoutTrailingSlashes (path : String) : List String :=
  Text.split '/' (Text.trimEnd '/' path)

/-- The routes of a decoded path: those it leads to, or else those it leads to without slashes at
its end. -/
def routesOf (path : String) : List (String × Route) :=
  match routesAt (Text.split '/' path) with
  | [] => routesAt (withoutTrailingSlashes path)
  | found => found

/-! ### Parameters -/

/-- The value of a parameter; of several the last one counts. -/
def param? (request : Request) (name : String) : Option String :=
  (request.params.reverse.find? fun entry => entry.1 == name).map (·.2)

def requiredParam (request : Request) (name : String) : Checked String :=
  match param? request name with
  | some value => .good value
  | none => (Checked.complain .missing).under (.field name)

def intParam (request : Request) (name : String) (default : Int)
    (check : Int → Checked Int) : Checked Int :=
  match param? request name with
  | some value => ((Check.int (.text value)).andThen check).under (.field name)
  | none => .good default

def firstParam (request : Request) : Checked Int :=
  intParam request "from" 0 (Check.atLeast 0)

def sizeParam (request : Request) : Checked Int :=
  intParam request "size" 25 fun n => (Check.atLeast 1 n).andThen (Check.atMost 1000)

/-! ### Bodies -/

/-- The text of a body without a byte order mark. -/
def unmarked (body : String) : String :=
  match body.toList with
  | '\ufeff' :: rest => String.ofList rest
  | _ => body

/-- The value of a body that passes a check. No body, and a null one, are missing. -/
def checkedBody {α : Type} (request : Request) (check : Complaint → Json → Checked α) :
    Checked α :=
  if request.body.isEmpty then Checked.complain .missing
  else
    match Json.read (unmarked request.body) with
    | .error fault => (Checked.complain .invalidJson).under (.item fault.position)
    | .ok .null => Checked.complain .missing
    | .ok value => check .notAttributes value

/-! ### Handling -/

/-- The answer of work on what was checked, or the complaints about what the client sent. -/
def answering {α : Type} (place : String) (checked : Checked α) (work : α → Work Json) :
    Work Answer :=
  match checked.under (.field place) with
  | .bad details => pure (Answer.ofDetails details)
  | .good value => do
    let envelope ← respond (work value)
    pure (Answer.ofEnvelope envelope)

def answer (request : Request) : Route → Work Answer
  | .spaces => answering "query" (.good ()) fun _ => pure Endpoint.spaces
  | .preview space => answering "query" (.good ()) fun _ => Endpoint.preview space
  | .promote => answering "body" (checkedBody request PromotionRequest.check) Endpoint.promote
  | .policies =>
    let params := (fun space first size => (space, first, size)) <$> requiredParam request "space"
      <*> firstParam request <*> sizeParam request
    answering "query" params fun (space, first, size) => Endpoint.policies space first size
  | .policy space => answering "query" (.good ()) fun _ => Endpoint.policy space
  | .updatePolicy space =>
    answering "body" (checkedBody request PolicyUpdate.check) (Endpoint.updatePolicy space)
  | .reorder space =>
    answering "body" (checkedBody request ReorderRequest.check) (Endpoint.reorder space)
  | .rootDecoder space => answering "query" (.good ()) fun _ => Endpoint.rootDecoder space
  | .setRootDecoder space =>
    answering "body" (checkedBody request RootDecoderUpdate.check)
      (Endpoint.setRootDecoder space)
  | .candidates space =>
    let params := Prod.mk <$> firstParam request <*> sizeParam request
    answering "query" params fun (first, size) =>
      Endpoint.candidates space (param? request "search") first size
  | .content type =>
    let params := (fun space first size => (space, first, size)) <$> requiredParam request "space"
      <*> firstParam request <*> sizeParam request
    answering "query" params fun (space, first, size) => Endpoint.content type space first size

def handle (request : Request) : Work Answer :=
  match routesOf (Text.Percent.decode request.path) with
  | [] => pure notFound
  | routes =>
    match routes.find? fun entry => entry.1 == request.method with
    | some (_, route) => answer request route
    | none => pure methodNotAllowed

end Lifecycle.Service
