import Subplans.Estimate.Basic
import Subplans.Query.Sql

/-!
Where estimates come from: the planner of the database, counting the rows, or nowhere.
-/

namespace Subplans

inductive EstimateSource
  | planner
  | count
  -- No source at all, so that everything is left to the server.
  | nothing
deriving DecidableEq, Repr

namespace EstimateSource

def all : List EstimateSource :=
  [planner, count, nothing]

def name : EstimateSource → String
  | planner => "planner"
  | count => "true"
  | nothing => "clueless"

def named? (name : String) : Option EstimateSource :=
  all.find? (·.name == name)

-- The sources whose names stand in a text with commas between them, if all of them are known.
def readList? (text : String) : Option (List EstimateSource) :=
  (Text.splitOn [','] text.toList).mapM fun name => named? (String.ofList name)

variable {m : Type → Type} [Monad m]

def plannedRows (b : Backend m) (s : Schema) (g : QueryGraph) : ExceptT BackendError m Float := do
  match ← ExceptT.lift (b.explain (g.sql s false) []) with
  | .ok explain => return explain.plan.operation.rows
  | .error .timeout => return unknownEstimate
  | .error e => throw e

-- The rows that there are, unknown where the server refuses to count them or takes too long.
def countedRows (b : Backend m) (s : Schema) (g : QueryGraph) : ExceptT BackendError m Float := do
  match ← ExceptT.lift (b.count (g.sql s true)) with
  | .ok rows => return rows
  | .error .timeout | .error (.rejected _) => return unknownEstimate
  | .error e => throw e

def estimator (b : Backend m) : EstimateSource → Estimator m
  | planner => ⟨plannedRows b⟩
  | count => ⟨countedRows b⟩
  | nothing => ⟨fun _ _ => pure unknownEstimate⟩

end EstimateSource

end Subplans
