import Subplans.Backend.Basic
import Subplans.Files.Tree

/-!
A database whose answers are laid down in advance.

The answer to a statement is that of the first rule whose pattern occurs in it. All statements are recorded.
-/

namespace Subplans

abbrev Rules (α : Type) := List (String × α)

def Rules.first? {α : Type} (rules : Rules α) (sql : String) : Option α :=
  (rules.find? fun (pattern, _) => Text.contains sql pattern).map Prod.snd

structure BackendScript where
  rows : Rules Float := []
  counts : Rules Float := []
  explains : Rules Explain := []
  rejected : List String := []
  timeouts : List String := []
  -- Files that are written to the data directory when a statement is planned with logging switched on.
  logs : List (String × String) := []
  directory : Option String := none
  isDisconnected : Bool := false

-- What happened so far: the statements with their settings, the latest first, and the files.
structure BackendSession where
  calls : List (String × List String) := []
  tree : FileTree := {}

namespace BackendSession

def files : Files (StateM BackendSession) :=
  FileTree.access tree fun tree session => { session with tree }

end BackendSession

namespace BackendScript

-- The number in an answer that no rule gives.
def defaultRows : Float := 1000

def loggingMark : String := "print_sub_queries = TRUE"

def error? (s : BackendScript) (sql : String) : Option BackendError :=
  if s.isDisconnected then some (.connection "scripted disconnect")
  else if s.timeouts.any (Text.contains sql) then some .timeout
  else (s.rejected.find? (Text.contains sql)).map fun pattern => .rejected ("rejected " ++ pattern)

def plan (s : BackendScript) (sql : String) : Explain :=
  (s.explains.first? sql).getD
    { plan := .node { name := Operator.name .seqScan, rows := (s.rows.first? sql).getD defaultRows } [] }

def writeLogs (s : BackendScript) (settings : List String) : ExceptT BackendError (StateM BackendSession) Unit :=
  match s.directory, settings.any (Text.contains · loggingMark) with
  | some directory, true => s.logs.forM fun (name, contents) =>
    (BackendSession.files.save (Files.path directory name) contents).adapt fun _ => .unavailable
  | _, _ => return

def check (s : BackendScript) (sql : String) (settings : List String) :
    ExceptT BackendError (StateM BackendSession) Unit := do
  modify fun session => { session with calls := (sql, settings) :: session.calls }
  match s.error? sql with
  | some e => throw e
  | none => return

def dataDirectory (s : BackendScript) : Except BackendError String :=
  if s.isDisconnected then .error (.connection "scripted disconnect")
  else match s.directory with
    | some directory => .ok directory
    | none => .error (.unexpectedOutput "no data directory")

def backend (s : BackendScript) : Backend (StateM BackendSession) where
  explain sql settings := ExceptT.run do
    s.check sql settings
    s.writeLogs settings
    return s.plan sql
  explainAnalyze sql settings := ExceptT.run do
    s.check sql settings
    let explain := s.plan sql
    return { explain with executionTime := some (explain.executionTime.getD 1) }
  count sql := ExceptT.run do
    s.check sql []
    return (s.counts.first? sql).getD defaultRows
  dataDirectory := pure s.dataDirectory

end BackendScript

end Subplans
