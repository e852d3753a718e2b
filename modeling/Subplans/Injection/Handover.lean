import Subplans.Execution.Report
import Subplans.Injection.LoggedQuery
import Subplans.Settings.Injection

/-!
Estimates handed to the server.

The server is made to log which estimates it asks for, each of them is estimated, and the estimates are
written in the order of the logs to two files in its data directory. Only the position of an estimate says
what it belongs to. With injection switched on the server then reads its estimates from there.
-/

namespace Subplans

structure EstimateFiles where
  tables : String
  joins : String
deriving DecidableEq, Repr

structure Injection (m : Type → Type) where
  schema : Schema
  backend : Backend m
  files : Files m
  settings : InjectionSettings := {}
  -- Of the joins in logs of records only inner ones become queries.
  onlyInner : Bool := false

namespace Injection

def estimateText (estimates : List Float) : String :=
  String.join (estimates.map fun x => Number.writeFixed 6 x ++ "\n")

variable {m : Type → Type} [Monad m]

-- How the estimates of some queries are come by; a missing query has one too.
abbrev Estimation (m : Type → Type) : Type :=
  List (Option QueryGraph) → ExceptT BackendError m (List Float)

def tableLog (i : Injection m) (directory : String) : String :=
  Files.path directory i.settings.tableLog

def joinLog (i : Injection m) (directory : String) : String :=
  Files.path directory i.settings.joinLog

-- Has the server log what it asks for when it plans a statement. Older logs are removed before.
def writeLogs (i : Injection m) (directory sql : String) : ExceptT InjectionError m Unit := do
  (i.files.clear (i.tableLog directory)).adapt fun _ => .file
  (i.files.clear (i.joinLog directory)).adapt fun _ => .file
  match ← ExceptT.lift (i.backend.explain sql i.settings.logging) with
  | .ok _ => return
  | .error e => throw (.backend e)

-- The sub-queries that a log of aliases tells of. A missing log tells of none.
def loggedQueries (i : Injection m) (g : QueryGraph) (path : String) :
    ExceptT InjectionError m (List QueryGraph) := do
  match ← (i.files.read? path).adapt fun _ => .file with
  | none => return []
  | some text => ExceptT.mk (pure (OrderLog.queries i.schema g text))

-- The entries of a log of records. A missing log is empty.
def loggedEntries {α : Type} (i : Injection m) (read : Json → Option α) (path : String) :
    ExceptT InjectionError m (List α) := do
  let text ← (i.files.read? path).adapt fun _ => .file
  match logEntries? read (text.getD "") with
  | some entries => return entries
  | none => throw .malformedLog

def rebuild (i : Injection m) (directory sql : String) : ExceptT InjectionError m LoggedQueries := do
  i.writeLogs directory sql
  let tables ← i.loggedEntries TableEntry.ofJson? (i.tableLog directory)
  let joins ← i.loggedEntries JoinEntry.ofJson? (i.joinLog directory)
  LoggedQueries.ofEntries i.schema i.backend i.onlyInner tables joins

-- The estimates of single tables and of joins. Those of joins are corrected if something is told of each.
def estimates (estimation : Estimation m) (tables joins : List (Option QueryGraph))
    (infos : Option (List (Option JoinInfo))) : ExceptT InjectionError m (List Float × List Float) := do
  let all ← (estimation (tables ++ joins)).adapt .backend
  let (ofTables, ofJoins) := all.splitAt tables.length
  match infos with
  | none => return (ofTables, ofJoins)
  | some infos =>
    match Correction.correctAll ofTables ofJoins infos with
    | .ok corrected => return (ofTables, corrected)
    | .error e => throw (.countMismatch e)

-- Estimates some queries and writes the files. The one for single tables is left alone if there are none.
def save (i : Injection m) (estimation : Estimation m) (directory : String)
    (tables joins : List (Option QueryGraph)) (infos : Option (List (Option JoinInfo))) :
    ExceptT InjectionError m EstimateFiles := do
  let (ofTables, ofJoins) ← estimates estimation tables joins infos
  let write := fun name estimates =>
    (i.files.save (Files.path directory name) (estimateText estimates)).adapt fun _ => InjectionError.file
  if !tables.isEmpty then write i.settings.tableEstimates ofTables
  write i.settings.joinEstimates ofJoins
  return { tables := i.settings.tableEstimates, joins := i.settings.joinEstimates }

def directory (i : Injection m) : ExceptT InjectionError m String :=
  (ExceptT.mk i.backend.dataDirectory).adapt .backend

-- Hands over the estimates of all that the server asks for when it plans a query, those of single tables only if
-- `withTables`.
def prepare (i : Injection m) (estimation : Estimation m) (g : QueryGraph) (withTables : Bool) :
    ExceptT InjectionError m EstimateFiles := do
  let directory ← i.directory
  i.writeLogs directory (g.sql i.schema false)
  -- Both logs are read even if only the joins are estimated: a fault in either is told.
  let tables ← i.loggedQueries g (i.tableLog directory)
  let joins ← i.loggedQueries g (i.joinLog directory)
  i.save estimation directory (if withTables then tables.map some else []) (joins.map some) none

-- Hands over the estimates of all that the server asks for when it plans a statement.
def prepareStatement (i : Injection m) (estimation : Estimation m) (sql : String) (withTables : Bool) :
    ExceptT InjectionError m EstimateFiles := do
  let directory ← i.directory
  let logged ← i.rebuild directory sql
  let tables := if withTables then logged.tables.map LoggedQuery.complete? else []
  i.save estimation directory tables (logged.joins.map LoggedQuery.complete?)
    (some (logged.joins.map LoggedQuery.join))

def statements (i : Injection m) (files : EstimateFiles) (withTables : Bool) : List String :=
  i.settings.injecting files.tables files.joins withTables

-- The seconds in a report, which is missing if the query took too long.
def seconds (report : Option ExecutionReport) : Option Float :=
  report.map fun r => r.executionTime / 1000

-- How many seconds a query takes when the server has the estimates in these files.
def execute (i : Injection m) (e : Execution m) (files : EstimateFiles) (g : QueryGraph) (withTables : Bool) :
    ExceptT InjectionError m (Option Float) := do
  return seconds (← (e.query g (i.statements files withTables)).adapt .backend)

-- How many seconds a statement takes when the server has the estimates in these files.
def executeStatement (i : Injection m) (e : Execution m) (files : EstimateFiles) (sql : String)
    (withTables : Bool) : ExceptT InjectionError m (Option Float) := do
  return seconds (← (e.statement sql (i.statements files withTables)).adapt .backend)

-- Hands over the estimates of a query and tells how many seconds it takes with them.
def runtime (i : Injection m) (estimation : Estimation m) (e : Execution m) (g : QueryGraph)
    (withTables : Bool) : ExceptT InjectionError m (Option Float) := do
  i.execute e (← i.prepare estimation g withTables) g withTables

-- Hands over the estimates of a statement and tells how many seconds it takes with them.
def statementRuntime (i : Injection m) (estimation : Estimation m) (e : Execution m) (sql : String)
    (withTables : Bool) : ExceptT InjectionError m (Option Float) := do
  i.executeStatement e (← i.prepareStatement estimation sql withTables) sql withTables

end Injection

end Subplans
