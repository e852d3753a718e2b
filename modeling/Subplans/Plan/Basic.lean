import Subplans.Json.Record
import Subplans.Json.Writer
import Subplans.Plan.Operator
import Subplans.Text.Order
import Subplans.Text.Tree

/-!
Query plans as EXPLAIN reports them.

Of each node the fields are kept that say which rows it yields and from what. `Plan.ofJson?` and
`Plan.toJson` read and write the records of nodes, `Explain.ofText?` what EXPLAIN prints.
-/

namespace Subplans

structure Operation where
  name : String
  relation : Option String := none
  aliasName : Option String := none
  index : Option String := none
  joinType : Option String := none
  filter : Option String := none
  indexCondition : Option String := none
  recheckCondition : Option String := none
  joinFilter : Option String := none
  hashCondition : Option String := none
  mergeCondition : Option String := none
  rows : Float := 0
  -- Rows that came out on average over the loops.
  actualRows : Option Float := none
  actualLoops : Option Float := none
  rowsRemoved : Option Float := none

namespace Operation

def operator? (o : Operation) : Option Operator :=
  Operator.named? o.name

-- The join conditions in the order in which they are checked.
def joinConditions (o : Operation) : List String :=
  [o.joinFilter, o.hashCondition, o.mergeCondition].filterMap id

def label (o : Operation) : String :=
  let conditions := o.joinConditions ++ o.filter.toList
  o.name ++ (o.joinType.map fun t => "(" ++ t ++ ")").getD "" ++
    (o.relation.map fun r => " on " ++ r).getD "" ++ (o.aliasName.map fun a => " " ++ a).getD "" ++
    String.join (conditions.map fun c => " [" ++ c ++ "]") ++
    " rows=" ++ Number.Layout.plain.write o.rows

end Operation

inductive Plan
  | node (operation : Operation) (inputs : List Plan)

namespace Plan

instance : Inhabited Plan := ⟨node { name := "" } []⟩

def operation : Plan → Operation
  | node o _ => o

def inputs : Plan → List Plan
  | node _ inputs => inputs

mutual

-- All operations of a plan, those of inputs after the one that uses them.
def operations : Plan → List Operation
  | node o inputs => o :: operationsAll inputs

def operationsAll : List Plan → List Operation
  | [] => []
  | p :: rest => p.operations ++ operationsAll rest

end

mutual

-- A plan and all plans below it, from the root down.
def subplans : Plan → List Plan
  | node o inputs => node o inputs :: subplansAll inputs

def subplansAll : List Plan → List Plan
  | [] => []
  | p :: rest => p.subplans ++ subplansAll rest

end

def gathers (p : Plan) : Bool :=
  p.operations.any fun o => o.operator? == some .gather

-- The aliases of all relations that are scanned, in order.
def aliases (p : Plan) : List String :=
  Text.sortDistinct (p.operations.filterMap Operation.aliasName)

mutual

def tree : Plan → Text.Tree
  | node o inputs => .node o.label (trees inputs)

def trees : List Plan → List Text.Tree
  | [] => []
  | p :: rest => p.tree :: trees rest

end

def fieldNames : List String :=
  ["Node Type", "Plans", "Relation Name", "Alias", "Index Name", "Join Type", "Filter", "Index Cond",
    "Recheck Cond", "Join Filter", "Hash Cond", "Merge Cond", "Plan Rows", "Actual Rows", "Actual Loops",
    "Rows Removed by Filter"]

-- Reads the record of a node and those below it, which may be nested up to `room` brackets deep.
def ofJson? : (room : Nat) → Json → Option Plan
  | 0, _ => none
  | room + 1, value => do
    let r ← value.record? fieldNames
    let text := fun name => r.defaulting? name none (Json.nullable? Json.string?)
    let number := fun name => r.defaulting? name none (Json.nullable? Json.float?)
    let name ← r.required? "Node Type" Json.string?
    let inputs ← r.defaulting? "Plans" [] fun plans =>
      match room with
      | 0 => none
      | room + 1 => plans.list? (ofJson? room)
    let operation : Operation := {
      name
      relation := ← text "Relation Name"
      aliasName := ← text "Alias"
      index := ← text "Index Name"
      joinType := ← text "Join Type"
      filter := ← text "Filter"
      indexCondition := ← text "Index Cond"
      recheckCondition := ← text "Recheck Cond"
      joinFilter := ← text "Join Filter"
      hashCondition := ← text "Hash Cond"
      mergeCondition := ← text "Merge Cond"
      rows := ← r.defaulting? "Plan Rows" 0 Json.float?
      actualRows := ← number "Actual Rows"
      actualLoops := ← number "Actual Loops"
      rowsRemoved := ← number "Rows Removed by Filter"
    }
    pure (node operation inputs)

def optionalField {α : Type} (name : String) (encode : α → Json) (value : Option α) :
    List (String × Json) :=
  (value.map fun v => (name, encode v)).toList

mutual

def toJson : Plan → Json
  | node o inputs =>
    let text := fun name => optionalField name Json.ofString
    let number := fun name => optionalField name Json.ofFloat
    Json.ofFields <|
      [("Node Type", Json.ofString o.name)] ++
      (if inputs.isEmpty then [] else [("Plans", Json.array (toJsonAll inputs))]) ++
      text "Relation Name" o.relation ++ text "Alias" o.aliasName ++ text "Index Name" o.index ++
      text "Join Type" o.joinType ++ text "Filter" o.filter ++ text "Index Cond" o.indexCondition ++
      text "Recheck Cond" o.recheckCondition ++ text "Join Filter" o.joinFilter ++
      text "Hash Cond" o.hashCondition ++ text "Merge Cond" o.mergeCondition ++
      [("Plan Rows", Json.ofFloat o.rows)] ++ number "Actual Rows" o.actualRows ++
      number "Actual Loops" o.actualLoops ++ number "Rows Removed by Filter" o.rowsRemoved

def toJsonAll : List Plan → List Json
  | [] => []
  | p :: rest => p.toJson :: toJsonAll rest

end

end Plan

structure Explain where
  plan : Plan
  -- In milliseconds.
  planningTime : Option Float := none
  -- In milliseconds, for statements that were executed.
  executionTime : Option Float := none
deriving Inhabited

namespace Explain

-- How deep the brackets of a JSON text may be nested.
def maxNesting : Nat := 127

-- Reads one report, in which brackets may be nested up to `room` deep.
def ofJson? (room : Nat) (value : Json) : Option Explain := do
  let r ← value.record? ["Plan", "Planning Time", "Execution Time"]
  let plan ← r.required? "Plan" (Plan.ofJson? (room - 1))
  let planningTime ← r.defaulting? "Planning Time" none (Json.nullable? Json.float?)
  let executionTime ← r.defaulting? "Execution Time" none (Json.nullable? Json.float?)
  pure { plan, planningTime, executionTime }

-- The first of the reports that EXPLAIN prints as an array.
def ofText? (text : String) : Option Explain := do
  (← (← Json.read? text).list? (ofJson? (maxNesting - 1))).head?

-- The record of a report, without the times that are not known.
def toJson (e : Explain) : Json :=
  Json.ofFields <| ("Plan", e.plan.toJson) ::
    (Plan.optionalField "Planning Time" Json.ofFloat e.planningTime ++
      Plan.optionalField "Execution Time" Json.ofFloat e.executionTime)

end Explain

end Subplans
