import Subplans.Query.Equalities
import Subplans.Text.Order
import Subplans.Text.Tree

/-!
Query graphs as SQL text and as trees.
-/

namespace Subplans.QueryGraph

def slotName (g : QueryGraph) (s : Schema) (slot : Slot) : String :=
  g.aliasName slot.node ++ "." ++ s.columnName slot.column

def whereClause (g : QueryGraph) : String :=
  let parts := (g.nodes.filter fun n => !(g.node n).clauses.isEmpty).map fun n =>
    (g.node n).clauses.sql (g.aliasName n)
  if parts.isEmpty then "" else "\nWHERE " ++ "\n\tAND ".intercalate parts

-- A table of the FROM list after the first: it is joined on its equalities.
def joinedTable (g : QueryGraph) (s : Schema) (equalities : List (Slot × Slot)) : String :=
  if equalities.isEmpty then " ON TRUE"
  else " ON " ++ " AND ".intercalate
    (equalities.map fun (left, right) => g.slotName s left ++ " = " ++ g.slotName s right)

-- The FROM list: the nodes that are not virtual, in the order of the traversal.
def fromList (g : QueryGraph) (s : Schema) : String :=
  "\n\tJOIN ".intercalate <| (g.equalities s).zipIdx.map fun ((n, equalities), i) =>
    (s.table (g.node n).table).name ++ " AS " ++ g.aliasName n ++
      (if i == 0 then "" else g.joinedTable s equalities)

def sql (g : QueryGraph) (s : Schema) (count : Bool) : String :=
  "SELECT " ++ (if count then "COUNT(*)" else "*") ++ "\nFROM " ++ g.fromList s ++ g.whereClause ++ ";"

def realAliases (g : QueryGraph) : List String :=
  Text.sortDistinct (g.realNodes.map g.aliasName)

def tree (g : QueryGraph) (s : Schema) : Text.Tree :=
  .node ("Query(" ++ toString g.nodes.length ++ " nodes)") <| g.nodes.map fun n =>
    let o := g.node n
    .node (g.aliasName n ++ ": " ++ (s.table o.table).name ++ (if o.isVirtual then " (virtual)" else "") ++
        " card=" ++ Number.Layout.plain.write o.cardinality) <|
      (g.outgoing n).filterMap fun e => (g.edge? e).map fun edge =>
        .leaf (g.edgeAlias e ++ " -[" ++ (s.key edge.key).name ++ "]-> " ++ g.aliasName edge.target)

end Subplans.QueryGraph
