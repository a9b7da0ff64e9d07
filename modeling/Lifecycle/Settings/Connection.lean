import Lifecycle.Settings.Sources

/-!
# Settings of the connection to the cluster
-/

namespace Lifecycle

/-- How the cluster that holds the indexes is reached. -/
structure Connection where
  url : String := "https://localhost:9200"
  username : Option String := none
  password : Option String := none
  verifyCerts : Bool := true
  timeoutSeconds : Binary64 := .ofInt 10
  /-- The path of the content manager. -/
  contentManagerPath : String := "/_plugins/_content_manager"
  deriving DecidableEq, Repr

namespace Connection

def heading : String := "opensearch_"

/-- The names of the settings and how their variables are read. -/
def names : List (String × Settings.Form) :=
  [("url", .text), ("username", .text), ("password", .text), ("verify_certs", .text),
   ("timeout_seconds", .text), ("content_manager_path", .text)]

def ofFields (fields : Table Json) : Checked Connection :=
  let defaults : Connection := {}
  Connection.mk
    <$> Check.optional fields "url" defaults.url Check.text
    <*> Check.optional fields "username" defaults.username Check.text?
    <*> Check.optional fields "password" defaults.password Check.text?
    <*> Check.optional fields "verify_certs" defaults.verifyCerts Check.bool
    <*> Check.optional fields "timeout_seconds" defaults.timeoutSeconds Check.float
    <*> Check.optional fields "content_manager_path" defaults.contentManagerPath Check.text
    <* Check.onlyKeys fields (names.map (·.1))

def read (env : Settings.Environment) (overrides : Table Json) : Except Fault Connection := do
  let fields ← Settings.given env heading names overrides
  (ofFields fields).orMisfit "OpenSearchSettings"

/-- The user and the password, if there is a user; no password is an empty one. -/
def credentials? (connection : Connection) : Option (String × String) :=
  connection.username.map fun user => (user, connection.password.getD "")

def toJson (connection : Connection) : Json :=
  .object
    [("url", .text connection.url), ("username", Json.ofText? connection.username),
     ("password", Json.ofText? connection.password),
     ("verify_certs", .bool connection.verifyCerts),
     ("timeout_seconds", .float connection.timeoutSeconds),
     ("content_manager_path", .text connection.contentManagerPath)]

end Connection

end Lifecycle
