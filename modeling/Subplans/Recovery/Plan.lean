import Subplans.Recovery.Join
import Subplans.Recovery.Scan

/-!
Queries of plans.

A plan is walked from the scans up: joins merge the queries of their inputs, and operators that only hand
rows on keep the query of their input. `subplans` answers the query of every scan and join that is known
completely.
-/

namespace Subplans.Recovery

variable {m : Type → Type} [Monad m]

-- What an operation with recovered inputs stands for. Without a query for each input it has none.
def combine (r : Recovery m) (operator : Operator) (o : Operation) (parts : List Recovered) :
    ExceptT RecoveryError m Recovered := do
  let below := gather parts
  -- Conditions that wait below a part without a query cannot be placed above it either.
  if !parts.all fun p => p.query.isSome then return { below with orphaned := [] }
  match operator.category with
  | .bitmapOperand => throw (.unknownOperator o.name)
  | .unsupported => return { below with orphaned := [] }
  | .passing =>
    match parts with
    | [] => throw (.malformedPlan (.noInput operator))
    | first :: _ => return { below with query := first.query }
  | .join => join r.schema operator o parts
  | .scan =>
    let (table, aliasName) ← scanTarget r.schema operator o
    let scanned ← r.scan table aliasName (scanConditions r.schema o table aliasName)
    let orphaned := scanned.orphaned ++ below.orphaned
    return { scanned with orphaned, subplans := if orphaned.isEmpty then scanned.subplans else [] }

mutual

-- What a plan stands for that has `depth` nodes above it.
def recoverBelow (r : Recovery m) (depth : Nat) : Plan → ExceptT RecoveryError m Recovered
  | .node o inputs => do
    if r.maxDepth < depth then throw (.tooDeep r.maxDepth)
    match o.operator? with
    | none => throw (.unknownOperator o.name)
    | some operator =>
      if operator == .bitmapHeapScan then r.heapScan o inputs
      else if operator.category == .bitmapOperand then throw (.unknownOperator o.name)
      else r.combine operator o (← recoverAll r (depth + 1) inputs)

def recoverAll (r : Recovery m) (depth : Nat) : List Plan → ExceptT RecoveryError m (List Recovered)
  | [] => pure []
  | p :: rest => do
    let first ← recoverBelow r depth p
    pure (first :: (← recoverAll r depth rest))

end

def recover (r : Recovery m) (plan : Plan) : ExceptT RecoveryError m Recovered :=
  r.recoverBelow 0 plan

def subplans (r : Recovery m) (plan : Plan) : ExceptT RecoveryError m (List QueryGraph) :=
  Recovered.subplans <$> r.recover plan

def subplansOf (r : Recovery m) (sql : String) : ExceptT RecoveryError m (List QueryGraph) := do
  match ← ExceptT.lift (r.backend.explain sql []) with
  | .ok explain => r.subplans explain.plan
  | .error e => throw (.backend e)

end Subplans.Recovery
