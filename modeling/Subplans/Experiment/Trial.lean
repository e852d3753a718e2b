import Subplans.Estimate.Memory
import Subplans.Experiment.Options
import Subplans.Experiment.QueryFile
import Subplans.Injection.Handover
import Subplans.Recovery.Plan
import Subplans.Settings.Record
import Subplans.Sql.Graph

/-!
Trials: what comes of running queries with estimates from different sources.
-/

namespace Subplans

structure Trial where
  query : String
  mode : ExperimentMode
  source : Option EstimateSource
  number : Nat
  subplans : Nat
  -- In seconds; there is none if the query took too long or was not executed.
  runtime : Option Float

namespace Trial

def columns : List String :=
  ["query", "mode", "estimator", "trial", "num_subplans", "runtime_secs"]

def fields (t : Trial) : List String :=
  [t.query, t.mode.name, (t.source.map EstimateSource.name).getD "", toString t.number, toString t.subplans,
    (t.runtime.map Number.Layout.table.write).getD ""]

def table (trials : List Trial) : String :=
  Text.Table.write columns (trials.map fields)

end Trial

inductive TrialError
  | sql (error : Sql.GraphError)
  | injection (error : InjectionError)
  | recovery (error : RecoveryError)

def TrialError.message : TrialError → String
  | sql error => error.message
  | injection error => error.message
  | recovery error => error.message

structure Experiment (m : Type → Type) where
  schema : Schema
  backend : Backend m
  files : Files m
  settings : Settings
  options : Options

namespace Experiment

variable {m : Type → Type} [Monad m]

-- How estimates are come by in a trial. Nothing is remembered from one trial to the next.
def estimation (x : Experiment m) (source : EstimateSource) : Injection.Estimation m := fun queries =>
  let e := source.estimator x.backend
  if x.options.remembers then
    ExceptT.mk ((e.remembering.estimateBulk x.schema x.options.chunkSize queries).run.run' [])
  else e.estimateBulk x.schema x.options.chunkSize queries

def injection (x : Experiment m) : Injection m where
  schema := x.schema
  backend := x.backend
  files := x.files
  settings := x.settings.injection
  onlyInner := x.options.onlyInner

def execution (x : Experiment m) : Execution m where
  schema := x.schema
  backend := x.backend
  settings := x.settings.execution

def recovery (x : Experiment m) : Recovery m where
  schema := x.schema
  backend := x.backend
  parsesPredicates := x.options.parsesPredicates

def recover (x : Experiment m) (q : QueryFile) (number : Nat) : ExceptT TrialError m (List Trial) := do
  let subplans ← (x.recovery.subplansOf q.sql).adapt .recovery
  return [{ query := q.name, mode := x.options.mode, source := none, number, subplans := subplans.length,
            runtime := none }]

-- Executes the first statement of a text with estimates from a source; there is no trial without a statement.
def execute (x : Experiment m) (q : QueryFile) (number : Nat) (source : EstimateSource) :
    ExceptT TrialError m (List Trial) := do
  let trial := fun runtime =>
    ({ query := q.name, mode := x.options.mode, source := some source, number, subplans := 0, runtime } : Trial)
  let estimation := x.estimation source
  let withTables := x.options.withTables
  if x.options.mode == .parseInject then
    let runtime ← (x.injection.statementRuntime estimation x.execution q.sql withTables).adapt .injection
    return [trial runtime]
  else
    match ← (Sql.graphs x.schema x.backend q.sql).adapt .sql with
    | [] => return []
    | g :: _ =>
      let runtime ← (x.injection.runtime estimation x.execution g withTables).adapt .injection
      return [trial runtime]

def round (x : Experiment m) (q : QueryFile) (number : Nat) : ExceptT TrialError m (List Trial) := do
  if x.options.mode == .reconstruct then x.recover q number
  else return (← x.options.sources.mapM (x.execute q number)).flatten

def trials (x : Experiment m) (q : QueryFile) : ExceptT TrialError m (List Trial) := do
  return (← (List.range x.options.trials).mapM (x.round q)).flatten

def run (x : Experiment m) (queries : List QueryFile) : ExceptT TrialError m (List Trial) := do
  return (← queries.mapM x.trials).flatten

end Experiment

end Subplans
