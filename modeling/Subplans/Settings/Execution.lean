import Subplans.Json.Record
import Subplans.Json.Writer

/-!
What plans the server may use when queries are executed.
-/

namespace Subplans

structure ExecutionSettings where
  noGather : Bool := false
  noHashJoin : Bool := false
  noMergeJoin : Bool := false
  noNestedLoop : Bool := false
  -- The rows of a query are counted instead of selected.
  counts : Bool := false
deriving DecidableEq, Repr

namespace ExecutionSettings

def statements (e : ExecutionSettings) : List String :=
  (if e.noGather then ["SET max_parallel_workers_per_gather = 0;"] else []) ++
    (if e.noHashJoin then ["SET enable_hashjoin = OFF;"] else []) ++
    (if e.noMergeJoin then ["SET enable_mergejoin = OFF;"] else []) ++
    (if e.noNestedLoop then ["SET enable_nestloop = OFF;"] else [])

-- Reads a record, in which every field may be left out.
def ofJson? (value : Json) : Option ExecutionSettings := do
  let r ← value.record? ["disable_gather", "disable_hash_join", "disable_merge_join", "disable_nested_loop",
    "count"]
  let flag := fun name => r.defaulting? name false Json.bool?
  pure {
    noGather := ← flag "disable_gather"
    noHashJoin := ← flag "disable_hash_join"
    noMergeJoin := ← flag "disable_merge_join"
    noNestedLoop := ← flag "disable_nested_loop"
    counts := ← flag "count"
  }

def toJson (e : ExecutionSettings) : Json :=
  Json.ofFields [
    ("disable_gather", .bool e.noGather), ("disable_hash_join", .bool e.noHashJoin),
    ("disable_merge_join", .bool e.noMergeJoin), ("disable_nested_loop", .bool e.noNestedLoop),
    ("count", .bool e.counts)]

end ExecutionSettings

end Subplans
