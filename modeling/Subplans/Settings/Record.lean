import Subplans.Json.Reader
import Subplans.Settings.Connection
import Subplans.Settings.Execution
import Subplans.Settings.Injection

/-!
All settings of a run, as they stand in a file.
-/

namespace Subplans

structure Settings where
  connection : ConnectionSettings := {}
  injection : InjectionSettings := {}
  execution : ExecutionSettings := {}
deriving DecidableEq, Repr

namespace Settings

-- Reads a record, in which every field may be left out.
def ofJson? (value : Json) : Option Settings := do
  let r ← value.record? ["connection", "injection", "engine"]
  pure {
    connection := ← r.defaulting? "connection" {} ConnectionSettings.ofJson?
    injection := ← r.defaulting? "injection" {} InjectionSettings.ofJson?
    execution := ← r.defaulting? "engine" {} ExecutionSettings.ofJson?
  }

def ofText? (text : String) : Option Settings :=
  (Json.read? text).bind ofJson?

def toJson (s : Settings) : Json :=
  Json.ofFields [("connection", s.connection.toJson), ("injection", s.injection.toJson),
    ("engine", s.execution.toJson)]

end Settings

end Subplans
