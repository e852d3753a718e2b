import Subplans.Condition.Names
import Subplans.Recovery.Basic

/-!
Queries of joins.

The conditions of an inner join are equalities of columns of its inputs; each becomes a walk along foreign
keys. One that mentions a table from elsewhere in the plan is handed on as an orphan, and one that is no
such equality leaves the join without a query.
-/

namespace Subplans.Recovery

open QueryGraph (Side findAlias? placeConditions resolve)

def orphanSide (first second : Recovered) (condition : String) : Option Side :=
  if second.orphaned.contains condition then some .second
  else if first.orphaned.contains condition then some .first
  else none

def isEquality (condition : String) : Bool :=
  (Text.splitTopLevel " = ".toList (Text.stripParens condition.toList)).length == 2

-- What becomes of a condition between two queries, where a column without a qualifier is looked for on the preferred
-- side if it is on both.
def placeCondition (s : Schema) (first second : QueryGraph) (preferred : Option Side) (condition : String) :
    JoinResolution :=
  match Condition.joinColumns? condition with
  | none => if isEquality condition then .orphaned else .rejected
  | some (left, right) =>
    let locate := fun (side : Condition.JoinColumn) =>
      side.aliasName.orElse fun _ => findAlias? s first second side.column preferred
    match locate left, locate right with
    | some a, some b => resolve s first second (a, left.column) (b, right.column)
    | _, _ => .orphaned

-- All that was recovered below some nodes; of several tables with one alias the last counts.
def gather (parts : List Recovered) : Recovered where
  subplans := parts.flatMap Recovered.subplans
  orphaned := parts.flatMap Recovered.orphaned
  instances := (parts.flatMap Recovered.instances).foldl (fun all (a, o) => Assoc.put a o all) []

-- The query of an inner join of two queries on the orphans of both and its own conditions.
def innerJoin (s : Schema) (o : Operation) (left right : Recovered) (first second : QueryGraph) : Recovered :=
  let below := gather [left, right]
  let conditions := below.orphaned ++
    o.joinConditions.flatMap fun text => (Condition.conjuncts text.toList).map String.ofList
  let place := fun condition => placeCondition s first second (orphanSide left right condition) condition
  match placeConditions place [] [] conditions with
  | none => { below with orphaned := [] }
  | some (joins, orphaned) =>
    let query := QueryGraph.merge s first second joins
    { below with
      subplans := below.subplans ++ (if orphaned.isEmpty then [query] else [])
      query := some query
      orphaned }

def join (s : Schema) (operator : Operator) (o : Operation) (parts : List Recovered) :
    Except RecoveryError Recovered :=
  match o.joinType with
  | none => .error (.malformedPlan (.noJoinType operator))
  | some "Inner" =>
    match parts with
    | [left, right] =>
      match left.query, right.query with
      | some first, some second => .ok (innerJoin s o left right first second)
      | _, _ => .ok { gather parts with orphaned := [] }
    | _ => .error (.malformedPlan (.inputCount operator parts.length))
  | some _ => .ok { gather parts with orphaned := [] }

end Subplans.Recovery
