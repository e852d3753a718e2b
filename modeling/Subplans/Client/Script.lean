import Subplans.Backend.Script
import Subplans.Client.Request

/-!
A client program whose runs end in ways that are laid down in advance.

A run ends in the way of the first rule whose pattern occurs in the script of the run. All scripts are recorded.
-/

namespace Subplans

structure ClientScript where
  program : String
  rules : Rules ClientOutcome := []
  logs : List (String × String) := []
  directory : String

-- What happened so far: the scripts, the latest first, and the files.
structure ClientSession where
  scripts : List String := []
  tree : FileTree := {}

def ClientSession.files : Files (StateM ClientSession) :=
  FileTree.access tree fun tree session => { session with tree }

namespace ClientScript

def printing (output : String) : ClientOutcome where
  status := 0
  output
  errors := ""

-- The report on a plan for which there is no rule.
def report : Explain where
  plan := .node { name := Operator.name .seqScan, rows := BackendScript.defaultRows } []
  executionTime := some 1

-- How a run ends for which there is no rule.
def defaultOutcome (script : String) : ClientOutcome :=
  printing (if Text.contains script "EXPLAIN" then (Json.array [report.toJson]).compact
    else Number.Layout.plain.write BackendScript.defaultRows)

-- Runs the client; none if it is asked for by another name.
def run (c : ClientScript) (request : ClientRequest) : StateM ClientSession (Option ClientOutcome) := do
  if request.program != c.program then return none
  let script := request.script
  modify fun session => { session with scripts := script :: session.scripts }
  if Text.contains script "data_directory" then return some (printing (c.directory ++ "\n"))
  if Text.contains script BackendScript.loggingMark then
    c.logs.forM fun (name, contents) => do
      let _ ← ClientSession.files.write (Files.path c.directory name) contents
  return some ((c.rules.first? script).getD (defaultOutcome script))

end ClientScript

end Subplans
