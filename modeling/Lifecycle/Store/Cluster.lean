import Lifecycle.Text.Integer
import Lifecycle.Text.Percent
import Lifecycle.Work

/-!
# The document store in a cluster

Each operation is one request to the cluster. An answer with status 404 says that what the request
is about does not exist; any other status from 400 on is a fault of the store with the reason that
the body gives. The functions that read the body of an answer are kept apart from the requests.
-/

namespace Lifecycle.Cluster

/-! ### Requests -/

/-- The URL of a path under the URL of the cluster, its segments percent-encoded. -/
def url (connection : Connection) (segments : List String) : String :=
  Text.trimEnd '/' connection.url ++ "/" ++
    String.intercalate "/" (segments.map Text.Percent.encode)

def requestOf (connection : Connection) (method url : String) (json params : Json) : Exchange :=
  { method, url, json, params
    timeout := .float connection.timeoutSeconds
    session := some (connection.verifyCerts, connection.credentials?) }

/-- The words for an answer that says nothing but its status. -/
def statusText (status : Int) : String := "HTTP " ++ toString status

/-- The reason that the body of an error gives. -/
def reason (status : Int) (body : String) : Except Fault String :=
  match Json.read body with
  | .error _ => .ok (if body.isEmpty then statusText status else body)
  | .ok (.object fields) =>
    match Json.under fields "error" with
    | .object error =>
      let under (key : String) := (Json.under error key).given?
      .ok ((under "reason" <|> under "type").getD (.object error)).display
    | error => .ok ((error.given?.map Json.display).getD (statusText status))
  | .ok value => .error (.noPart value "get")

/-- What an answer holds: nothing if what was asked about does not exist, else the value of the
body, of which an empty one is an empty object. -/
def contents (status : Int) (body : String) : Except Fault (Option Json) :=
  if status == 404 then .ok none
  else if status ≥ 400 then
    match reason status body with
    | .ok words => .error (.store words (some status))
    | .error fault => .error fault
  else if body.isEmpty then .ok (some (.object []))
  else
    match Json.read body with
    | .ok .null => .ok none
    | .ok value => .ok (some value)
    | .error fault => .error (.unreadable fault)

def replyContents : Reply → Except Fault (Option Json)
  | .answer status body => contents status body
  | .broken fault =>
    if fault.isTransport then
      .error (.store ("OpenSearch request failed: " ++ fault.message) none)
    else .error fault

def request (method : String) (segments : List String) (json params : Json) :
    Work (Option Json) := do
  let deployment ← read
  let connection := deployment.connection
  let reply ← Work.exchange
    (requestOf connection method (url connection segments) json params)
  Work.ofExcept (replyContents reply)

/-! ### Reading answers -/

/-- The value under a key of an object, null if there is none. -/
def part (value : Json) (key : String) : Except Fault Json :=
  match value with
  | .object fields => .ok (Json.under fields key)
  | _ => .error (.noPart value "get")

/-- The items of a list that may not be given. -/
def givenItems (value : Json) : Except Fault (List Json) :=
  if value.truthy then Query.itemsOf value else .ok []

def hit (value : Json) : Except Fault Hit := do
  let id ← part value "_id"
  let source ← part value "_source"
  match source.given? with
  | none => pure ⟨id.display, []⟩
  | some (.object fields) => pure ⟨id.display, fields⟩
  | some _ => throw (.misfit "SearchHit" [⟨.notObject, [.field "source"]⟩])

/-- The whole number that a count is, in whatever way it is written. -/
def count : Json → Except Fault Int
  | .int n => .ok n
  | .bool b => .ok (if b then 1 else 0)
  | .float (.infinite _) => .error (.overflow "cannot convert float infinity to integer")
  | .float x =>
    match x.truncate? with
    | some n => .ok n
    | none => .error (.refused "cannot convert float NaN to integer")
  | .text s =>
    match Text.integer? s with
    | some n => .ok n
    | none =>
      .error (.refused ("invalid literal for int() with base 10: " ++ Text.quoted s))
  | value =>
    .error (.mistyped ("int() argument must be a string, a bytes-like object or a real number, " ++
      "not '" ++ value.typeName ++ "'"))

/-- How many documents there are on all pages, when `here` are on this one. -/
def total (value : Json) (here : Nat) : Except Fault Int :=
  match value with
  | .int n => .ok n
  | .bool b => .ok (if b then 1 else 0)
  | .object fields =>
    match Table.get? fields "value" with
    | some n => count n
    | none => .ok here
  | _ => .ok here

/-- The page of documents in the answer to a search. -/
def page (answer : Json) : Except Fault Page := do
  let found ← part answer "hits"
  let found := if found.truthy then found else .object []
  let all ← part found "total"
  let items ← givenItems (← part found "hits")
  let hits ← items.mapM hit
  let total ← total all hits.length
  pure ⟨total, hits⟩

/-- The documents in the answer to a request by ids, without those that were not found. -/
def foundAmong : List Json → Except Fault (List Hit)
  | [] => .ok []
  | value :: rest => do
    if (← part value "found").truthy then
      let first ← hit value
      let more ← foundAmong rest
      pure (first :: more)
    else foundAmong rest

/-! ### Operations -/

def searchBody (search : Search) : Json :=
  let query := if search.query.truthy then search.query else .object [("match_all", .object [])]
  .object
    ([("from", .int search.first), ("size", .int search.size),
      ("track_total_hits", .bool true), ("query", query)] ++
     (if search.sort.truthy then [("sort", search.sort)] else []) ++
     (if search.source == .null then [] else [("_source", search.source)]))

/-- What a search finds; an index that is not there has no documents. -/
def search (index : String) (search : Search) : Work Page := do
  match ← request "POST" [index, "_search"] (searchBody search) .null with
  | none => pure ⟨0, []⟩
  | some answer => Work.ofExcept (page answer)

def byIds (index : String) (ids : List String) : Work (List Hit) := do
  if ids.isEmpty then return []
  let body : Json := .object [("ids", Json.texts ids.eraseDups)]
  match ← request "POST" [index, "_mget"] body .null with
  | none => pure []
  | some answer => Work.ofExcept do
    let items ← givenItems (← part answer "docs")
    foundAmong items

/-- What can be done with some fields of an index. -/
def fieldCapabilities (index : String) (fields : List String) : Work Json := do
  let params : Json := .object [("fields", .text (String.intercalate "," fields))]
  match ← request "GET" [index, "_field_caps"] .null params with
  | none => throw (.store ("Index '" ++ index ++ "' does not exist.") (some 404))
  | some answer => Work.ofExcept do
    let found ← part answer "fields"
    pure (if found.truthy then found else .object [])

/-- The parameter that makes a write wait until searches see it. -/
def refreshed : Json := .object [("refresh", .text "wait_for")]

def upsert (index id : String) (body : Table Json) : Work Unit := do
  match ← request "PUT" [index, "_doc", id] (.object body) refreshed with
  | none =>
    throw (.store ("Index '" ++ index ++ "' rejected document '" ++ id ++ "'.") (some 404))
  | some _ => pure ()

/-- Removes a document; one that is not there needs no removal. -/
def delete (index id : String) : Work Unit := do
  let _ ← request "DELETE" [index, "_doc", id] .null refreshed

end Lifecycle.Cluster
