import Subplans.Plan.Basic
import Subplans.Query.Graph

/-!
The database that plans and row counts come from.

A `Backend` answers statements in some monad `m`: a pure function in `Id`, a session in `IO`. That a
statement is refused or takes too long is an answer like others, and callers decide what it means.
-/

namespace Subplans

inductive BackendError
  | rejected (message : String)
  | timeout
  | connection (message : String)
  -- The result is not of the kind that was asked for.
  | unexpectedOutput (output : String)
  | malformedReport
  | unavailable
deriving DecidableEq, Repr

def BackendError.message : BackendError → String
  | rejected message => "statement rejected: " ++ message
  | timeout => "statement timed out"
  | connection message => "connection failed: " ++ message
  | unexpectedOutput output => "unexpected output: " ++ output
  | malformedReport => "invalid EXPLAIN output"
  | unavailable => "I/O error"

-- What is asked of a database. Settings are complete statements that hold for the statement that follows them.
structure Backend (m : Type → Type) where
  explain : (sql : String) → (settings : List String) → m (Except BackendError Explain)
  explainAnalyze : (sql : String) → (settings : List String) → m (Except BackendError Explain)
  count : (sql : String) → m (Except BackendError Float)
  -- The directory from which the server reads injected estimates, and into which it writes its logs.
  dataDirectory : m (Except BackendError String)

namespace Backend

variable {m : Type → Type} [Monad m]

-- An occurrence of a table with the rows that the planner expects for its predicates: those of the whole table if there
-- are none, and `-1` where planning takes too long.
def occurrence (b : Backend m) (s : Schema) (table : Nat) (clauses : Clauses) (aliasName : String) :
    ExceptT BackendError m Occurrence := do
  let found := fun cardinality => ({ table, cardinality, clauses, isVirtual := false } : Occurrence)
  if clauses.isEmpty then return found (s.table table).cardinality
  match ← ExceptT.lift (b.explain (Occurrence.sql s table clauses aliasName) []) with
  | .ok explain => return found explain.plan.operation.rows
  | .error .timeout => return found (-1)
  | .error e => throw e

end Backend

end Subplans
