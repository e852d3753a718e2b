import Subplans.Backend.Basic
import Subplans.Execution.RowCounts
import Subplans.Settings.Execution
import Subplans.Text.Table

/-!
Execution of queries.

A query is executed under settings for the shape of its plan. What is reported is how long it took and, for
query graphs, how many rows its parts had.
-/

namespace Subplans

structure ExecutionReport where
  -- In milliseconds.
  executionTime : Float
  rowCounts : RowCounts
  gathers : Bool

structure ExecutionFigures where
  -- In milliseconds.
  planningTime : Float
  -- In milliseconds.
  executionTime : Float
  counts : Nat
  gathers : Bool

-- The figures of a report, with the planning time of another report of the planner.
def ExecutionReport.figures (r : ExecutionReport) (explain : Explain) : ExecutionFigures where
  planningTime := explain.planningTime.getD 0
  executionTime := r.executionTime
  counts := r.rowCounts.length
  gathers := r.gathers

namespace ExecutionFigures

def columns : List String :=
  ["planning_time_ms", "execution_time_ms", "num_cardinalities", "used_gather"]

def fields (f : ExecutionFigures) : List String :=
  [Number.Layout.table.write f.planningTime, Number.Layout.table.write f.executionTime, toString f.counts,
    if f.gathers then "true" else "false"]

def table (figures : List ExecutionFigures) : String :=
  Text.Table.write columns (figures.map fields)

end ExecutionFigures

structure Execution (m : Type → Type) where
  schema : Schema
  backend : Backend m
  settings : ExecutionSettings := {}

namespace Execution

variable {m : Type → Type} [Monad m]

-- The plan of an executed statement; none if it took too long.
def explain (e : Execution m) (sql : String) (extra : List String) : ExceptT BackendError m (Option Explain) := do
  match ← ExceptT.lift (e.backend.explainAnalyze sql (e.settings.statements ++ extra)) with
  | .ok explain => return some explain
  | .error .timeout => return none
  | .error error => throw error

def report (explain : Explain) (rowCounts : RowCounts) : ExecutionReport where
  executionTime := explain.executionTime.getD 0
  rowCounts
  gathers := explain.plan.gathers

-- Executes a query after the statements `extra`. There is no report if it took too long.
def query (e : Execution m) (g : QueryGraph) (extra : List String) :
    ExceptT BackendError m (Option ExecutionReport) := do
  let explain ← e.explain (g.sql e.schema e.settings.counts) extra
  return explain.map fun x => report x (.ofPlan g x.plan)

-- Executes a statement, whose parts are not known.
def statement (e : Execution m) (sql : String) (extra : List String) :
    ExceptT BackendError m (Option ExecutionReport) := do
  return (← e.explain sql extra).map (report · [])

end Execution

end Subplans
