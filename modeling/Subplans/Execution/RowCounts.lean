import Subplans.Condition.Names
import Subplans.Plan.Basic
import Subplans.Query.Sql

/-!
Row counts of executed plans.

The rows that came out of a part of a plan count for the set of tables scanned in it, provided that no
condition was applied there that the query of these tables does not have. `RowCounts.ofPlan` collects the
counts of all such parts; the same tables may come up several times, and then the topmost part counts.
-/

namespace Subplans

-- Numbers of rows by the aliases of the joined tables, both in order.
abbrev RowCounts := List (List String × Float)

namespace RowCounts

def set (tables : List String) (rows : Float) : RowCounts → RowCounts
  | [] => [(tables, rows)]
  | (t, r) :: rest =>
    if tables == t then (t, rows) :: rest
    else if tables < t then (tables, rows) :: (t, r) :: rest
    else (t, r) :: set tables rows rest

-- The conditions that may have dropped rows of a table at a node: that of its index, and its filter if there is an
-- index condition too or rows were seen to be dropped.
def droppingConditions (o : Operation) : List String :=
  let dropped := o.rowsRemoved.any (0 < ·)
  o.indexCondition.toList ++ (if dropped || o.indexCondition.isSome then o.filter.toList else [])

-- No condition is applied at a node that scans these tables except for those that the query has on them.
def isUnfiltered (g : QueryGraph) (tables : List String) (o : Operation) : Bool :=
  let conditions := droppingConditions o
  tables == g.realAliases ||
    match tables with
    | [aliasName] =>
      match g.byAlias? aliasName with
      | none => false
      | some n =>
        let clauses := (g.node n).clauses
        if conditions.isEmpty then clauses.isEmpty
        else clauses.length == (conditions.flatMap fun c => Condition.conjuncts c.toList).length
    | _ => conditions.isEmpty

-- The count of a node that scans these tables, if it is known and counts for them.
def count? (g : QueryGraph) (tables : List String) (o : Operation) : Option Float :=
  if !tables.isEmpty && isUnfiltered g tables o then do pure ((← o.actualRows) * (← o.actualLoops)) else none

mutual

-- The tables that a part of a plan scans, and the counts found in it. A node with an alias scans that relation, and
-- nothing below it counts.
def collect (g : QueryGraph) (counts : RowCounts) : Plan → List String × RowCounts
  | .node o inputs =>
    let (tables, counts) := match o.aliasName with
      | some aliasName => ([aliasName].filter g.realAliases.contains, counts)
      | none => collectAll g counts inputs
    -- The node counts after those below it, so that its count takes the place of theirs.
    (tables, ((count? g tables o).map fun rows => set tables rows counts).getD counts)

def collectAll (g : QueryGraph) (counts : RowCounts) : List Plan → List String × RowCounts
  | [] => ([], counts)
  | p :: rest =>
    let (tables, counts) := collect g counts p
    let (more, counts) := collectAll g counts rest
    (Text.sortDistinct (tables ++ more), counts)

end

def ofPlan (g : QueryGraph) (plan : Plan) : RowCounts :=
  (collect g [] plan).2

end RowCounts

end Subplans
