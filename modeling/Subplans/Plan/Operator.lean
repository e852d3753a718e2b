/-!
The operators of query plans.

Every operator that a plan may contain is listed, with what it means for the rows of a query.
-/

namespace Subplans

inductive Operator
  | seqScan
  | indexScan
  | indexOnlyScan
  | bitmapIndexScan
  | bitmapHeapScan
  | tidScan
  | sampleScan
  | nestedLoop
  | hashJoin
  | mergeJoin
  | sort
  | materialize
  | hash
  | gather
  | gatherMerge
  | memoize
  | incrementalSort
  | aggregate
  | append
  | setOp
  | unique
  | windowAgg
  | limit
  | subqueryScan
  | cteScan
  | bitmapAnd
  | bitmapOr
deriving DecidableEq, Repr

namespace Operator

inductive Category
  | scan
  | join
  -- Hands on the rows of its only input.
  | passing
  -- Anything that makes other rows of its inputs.
  | unsupported
  -- Combines bitmaps for a bitmap heap scan and means nothing elsewhere.
  | bitmapOperand
deriving DecidableEq, Repr

def all : List Operator :=
  [seqScan, indexScan, indexOnlyScan, bitmapIndexScan, bitmapHeapScan, tidScan, sampleScan, nestedLoop,
    hashJoin, mergeJoin, sort, materialize, hash, gather, gatherMerge, memoize, incrementalSort, aggregate,
    append, setOp, unique, windowAgg, limit, subqueryScan, cteScan, bitmapAnd, bitmapOr]

def name : Operator → String
  | seqScan => "Seq Scan"
  | indexScan => "Index Scan"
  | indexOnlyScan => "Index Only Scan"
  | bitmapIndexScan => "Bitmap Index Scan"
  | bitmapHeapScan => "Bitmap Heap Scan"
  | tidScan => "Tid Scan"
  | sampleScan => "Sample Scan"
  | nestedLoop => "Nested Loop"
  | hashJoin => "Hash Join"
  | mergeJoin => "Merge Join"
  | sort => "Sort"
  | materialize => "Materialize"
  | hash => "Hash"
  | gather => "Gather"
  | gatherMerge => "Gather Merge"
  | memoize => "Memoize"
  | incrementalSort => "Incremental Sort"
  | aggregate => "Aggregate"
  | append => "Append"
  | setOp => "SetOp"
  | unique => "Unique"
  | windowAgg => "WindowAgg"
  | limit => "Limit"
  | subqueryScan => "Subquery Scan"
  | cteScan => "CTE Scan"
  | bitmapAnd => "BitmapAnd"
  | bitmapOr => "BitmapOr"

def named? (name : String) : Option Operator :=
  all.find? (·.name == name)

theorem mem_all (o : Operator) : o ∈ all := by
  cases o <;> decide

def category : Operator → Category
  | seqScan | indexScan | indexOnlyScan | bitmapIndexScan | bitmapHeapScan | tidScan | sampleScan => .scan
  | nestedLoop | hashJoin | mergeJoin => .join
  | sort | materialize | hash | gather | gatherMerge | memoize | incrementalSort => .passing
  | aggregate | append | setOp | unique | windowAgg | limit | subqueryScan | cteScan => .unsupported
  | bitmapAnd | bitmapOr => .bitmapOperand

end Operator

end Subplans
