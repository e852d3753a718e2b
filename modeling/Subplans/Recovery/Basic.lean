import Subplans.Assoc
import Subplans.Backend.Basic
import Subplans.Query.Merge

/-!
What is recovered from a plan: for each part of it that joins some tables, the query that it answers.

Most failures are soft. A part that no query stands for has none, and a condition that cannot be placed
yet is handed on as an orphan. Only unknown operators, malformed plans and a lost database are errors.
-/

namespace Subplans

inductive PlanFault
  | noInput (operator : Operator)
  | noJoinType (operator : Operator)
  | inputCount (operator : Operator) (count : Nat)
  | noRelation (operator : Operator)
  | noIndexName (operator : Operator)
  | noIndexScan
  | foreignIndex (index table : String)
deriving DecidableEq, Repr

def PlanFault.message : PlanFault → String
  | noInput o => o.name ++ " without input"
  | noJoinType o => o.name ++ " without join type"
  | inputCount o n => o.name ++ " with " ++ toString n ++ " inputs"
  | noRelation o => o.name ++ " without relation name"
  | noIndexName o => o.name ++ " without index name"
  | noIndexScan => Operator.name .bitmapHeapScan ++ " without index scan"
  | foreignIndex index table => "index " ++ index ++ " is not on " ++ table

inductive RecoveryError
  | unknownOperator (name : String)
  | unknownTable (name : String)
  | unknownIndex (name : String)
  | malformedPlan (fault : PlanFault)
  | tooDeep (levels : Nat)
  | backend (error : BackendError)
deriving DecidableEq, Repr

def RecoveryError.message : RecoveryError → String
  | unknownOperator name => "unknown plan operator: " ++ name
  | unknownTable name => "unknown table: " ++ name
  | unknownIndex name => "no table has index " ++ name
  | malformedPlan fault => "malformed plan: " ++ fault.message
  | tooDeep levels => "plan is nested deeper than " ++ toString levels ++ " levels"
  | backend error => "backend failure: " ++ error.message

structure Recovered where
  -- The queries of all parts below that are known completely, inputs before the joins of them.
  subplans : List QueryGraph := []
  query : Option QueryGraph := none
  -- Conditions that have found no place yet.
  orphaned : List String := []
  instances : List (String × Occurrence) := []

-- How plans are read: against a schema, and with a database that says which conditions it accepts.
structure Recovery (m : Type → Type) where
  schema : Schema
  backend : Backend m
  -- Conditions of scans become predicates on columns where they can; otherwise they are kept as the planner printed
  -- them.
  parsesPredicates : Bool := true
  maxDepth : Nat := 256

end Subplans
