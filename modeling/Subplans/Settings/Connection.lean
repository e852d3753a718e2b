import Subplans.Json.Record
import Subplans.Json.Writer

/-!
How the database is reached.
-/

namespace Subplans

structure ConnectionSettings where
  host : String := "localhost"
  portNumber : Nat := 5432
  database : String := "imdb"
  user : String := "postgres"
  password : Option String := none
  client : String := "psql"
  -- Seconds after which a statement is cancelled, if there is a limit.
  timeout : Option Nat := none
deriving DecidableEq, Repr

namespace ConnectionSettings

-- Reads a record, in which every field may be left out.
def ofJson? (value : Json) : Option ConnectionSettings := do
  let r ← value.record? ["host", "port", "database", "user", "password", "psql", "timeout_secs"]
  let d : ConnectionSettings := {}
  pure {
    host := ← r.defaulting? "host" d.host Json.string?
    portNumber := ← r.defaulting? "port" d.portNumber (Json.nat? (Nat.pow 2 16))
    database := ← r.defaulting? "database" d.database Json.string?
    user := ← r.defaulting? "user" d.user Json.string?
    password := ← r.defaulting? "password" d.password (Json.nullable? Json.string?)
    client := ← r.defaulting? "psql" d.client Json.string?
    timeout := ← r.defaulting? "timeout_secs" d.timeout (Json.nullable? (Json.nat? (Nat.pow 2 64)))
  }

def toJson (c : ConnectionSettings) : Json :=
  Json.ofFields [
    ("host", Json.ofString c.host), ("port", Json.ofNat c.portNumber), ("database", Json.ofString c.database),
    ("user", Json.ofString c.user), ("password", (c.password.map Json.ofString).getD .null),
    ("psql", Json.ofString c.client), ("timeout_secs", (c.timeout.map Json.ofNat).getD .null)]

end ConnectionSettings

end Subplans
