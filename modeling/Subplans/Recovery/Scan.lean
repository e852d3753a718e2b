import Subplans.Condition.Names
import Subplans.Condition.Resolve
import Subplans.Recovery.Basic

/-!
Queries of scans.

The query of a scan is the scanned table with those of its conditions that the database accepts when each
stands alone. The others, mostly because they refer to another table, become orphans.
-/

namespace Subplans.Recovery

variable {m : Type → Type} [Monad m]

def scanTarget (s : Schema) (operator : Operator) (o : Operation) : Except RecoveryError (Nat × String) :=
  if operator == .bitmapIndexScan then
    match o.index with
    | none => .error (.malformedPlan (.noIndexName operator))
    | some index =>
      match s.tableOfIndex? index with
      | none => .error (.unknownIndex index)
      | some table => .ok (table, (s.table table).name)
  else
    match o.relation with
    | none => .error (.malformedPlan (.noRelation operator))
    | some relation =>
      match s.table? relation with
      | none => .error (.unknownTable relation)
      | some table => .ok (table, o.aliasName.getD relation)

def scanConditions (s : Schema) (o : Operation) (table : Nat) (aliasName : String) : List String :=
  [o.filter, o.indexCondition].flatMap fun condition =>
    condition.toList.flatMap fun text => Condition.filterConjuncts text aliasName (s.table table)

-- Parts the conditions of a scan into those that the database accepts and those it does not.
def judge (r : Recovery m) (table : Nat) (aliasName : String) :
    (conditions : List String) → ExceptT RecoveryError m (List String × List String)
  | [] => pure ([], [])
  | condition :: rest => do
    let sql := Occurrence.sql r.schema table [[.verbatim condition true]] aliasName
    match ← ExceptT.lift (r.backend.explain sql []) with
    | .ok _ =>
      let (accepted, orphaned) ← judge r table aliasName rest
      pure (condition :: accepted, orphaned)
    | .error (.rejected _) | .error .timeout =>
      let (accepted, orphaned) ← judge r table aliasName rest
      pure (accepted, condition :: orphaned)
    | .error e => throw (.backend e)

def scan (r : Recovery m) (table : Nat) (aliasName : String) (conditions : List String) :
    ExceptT RecoveryError m Recovered := do
  let (accepted, orphaned) ← r.judge table aliasName conditions
  -- Each condition was accepted on its own; now the planner says how many rows fulfil all of them.
  let verbatim : Clauses := accepted.map fun condition => [.verbatim condition true]
  let found ← (r.backend.occurrence r.schema table verbatim aliasName).adapt .backend
  let scope : Scope := { schema := r.schema, table, aliasName, bareLists := false }
  let occurrence := if r.parsesPredicates then { found with clauses := scope.clauses accepted } else found
  let (_, query) := QueryGraph.empty.add occurrence aliasName
  return {
    subplans := if orphaned.isEmpty then [query] else []
    query := some query
    orphaned
    instances := [(aliasName, occurrence)]
  }

inductive BitmapSource
  | scans (operations : List Operation)
  -- Bitmaps that are combined in a way no conjunction stands for.
  | combined
  | unknown (name : String)

-- The index scans below the node that intersects their bitmaps, if there is nothing else below it.
def intersected (inputs : List Plan) : Option (List Operation) :=
  inputs.mapM fun p => if p.operation.operator? == some .bitmapIndexScan then some p.operation else none

def bitmapSource : (inputs : List Plan) → BitmapSource
  | [] => .scans []
  | p :: rest =>
    match p.operation.operator? with
    | none => .unknown p.operation.name
    | some .bitmapIndexScan => after [p.operation] rest
    | some .bitmapAnd =>
      match intersected p.inputs with
      | some operations => after operations rest
      | none => .combined
    | some _ => .combined
where
  after (operations : List Operation) (rest : List Plan) : BitmapSource :=
    match bitmapSource rest with
    | .scans more => .scans (operations ++ more)
    | other => other

-- The conditions of an index scan below a heap scan. They use the name of the table, in whose place the alias of the
-- heap scan is put.
def indexConditions (s : Schema) (table : Nat) (aliasName : String) (o : Operation) :
    Except RecoveryError (List String) := do
  let (indexTable, indexAlias) ← scanTarget s .bitmapIndexScan o
  if indexTable != table then
    throw (.malformedPlan (.foreignIndex (o.index.getD "") (s.table table).name))
  return (scanConditions s o table indexAlias).map fun condition =>
    String.ofList (Condition.requalify condition.toList indexAlias aliasName)

-- The table of a bitmap heap scan and its alias, with the conditions of the index scans below it and its own.
def heapTarget (s : Schema) (o : Operation) (scans : List Operation) :
    Except RecoveryError (Nat × String × List String) := do
  let (table, aliasName) ← scanTarget s .bitmapHeapScan o
  let conditions ← scans.mapM (indexConditions s table aliasName)
  return (table, aliasName, conditions.flatten ++ scanConditions s o table aliasName)

def heapScan (r : Recovery m) (o : Operation) (inputs : List Plan) : ExceptT RecoveryError m Recovered := do
  match bitmapSource inputs with
  | .unknown name => throw (.unknownOperator name)
  | .combined => return {}
  | .scans [] => throw (.malformedPlan .noIndexScan)
  | .scans operations =>
    let (table, aliasName, conditions) ← heapTarget r.schema o operations
    r.scan table aliasName conditions

end Subplans.Recovery
