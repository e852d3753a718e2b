import Subplans.Backend.Basic
import Subplans.Query.Subquery

/-!
Estimates of how many rows queries have.

An estimator answers for connected queries. The estimate of any other query is the product over its factors.
What cannot be estimated has the estimate `-1`: a missing query, a query with such a factor, or one that its
source gives up on.
-/

namespace Subplans

-- The estimate of what cannot be estimated.
def unknownEstimate : Float := -1

structure Estimator (m : Type → Type) where
  connected : Schema → QueryGraph → ExceptT BackendError m Float

namespace Estimator

variable {m : Type → Type} [Monad m]

-- The product of the estimates of some factors, times `product`.
def estimateFactors (e : Estimator m) (s : Schema) (product : Float) :
    (factors : List QueryGraph) → ExceptT BackendError m Float
  | [] => pure product
  | g :: rest => do
    let x ← e.connected s g
    if x == unknownEstimate then return unknownEstimate
    estimateFactors e s (product * x) rest

-- The estimate of a query, which may be missing.
def estimate (e : Estimator m) (s : Schema) : (query : Option QueryGraph) → ExceptT BackendError m Float
  | none => pure unknownEstimate
  | some g => if g.hasCrossProduct then e.estimateFactors s 1 (g.factors s) else e.connected s g

def estimateAll (e : Estimator m) (s : Schema) (queries : List (Option QueryGraph)) :
    ExceptT BackendError m (List Float) :=
  queries.mapM (e.estimate s)

-- The positions of `count` queries, cut into chunks of `size`, at least one.
def chunks (size count : Nat) : List (List Nat) :=
  (List.range ((count + (max size 1 - 1)) / max size 1)).map fun i =>
    (List.range' (i * max size 1) (max size 1)).filter (· < count)

-- Estimates the queries at some positions in any order, and puts each estimate at the position of its query.
def estimateAt (e : Estimator m) (s : Schema) (queries : List (Option QueryGraph)) (positions : List Nat) :
    ExceptT BackendError m (List Float) :=
  positions.foldlM (fun estimates i => do
    let x ← e.estimate s (queries.getD i none)
    return estimates.set i x) (List.replicate queries.length unknownEstimate)

def estimateInChunks (e : Estimator m) (s : Schema) (size : Nat) (queries : List (Option QueryGraph)) :
    ExceptT BackendError m (List Float) :=
  e.estimateAt s queries (chunks size queries.length).flatten

def estimateBulk (e : Estimator m) (s : Schema) (chunkSize : Option Nat) (queries : List (Option QueryGraph)) :
    ExceptT BackendError m (List Float) :=
  match chunkSize with
  | some size => e.estimateInChunks s size queries
  | none => e.estimateAll s queries

end Estimator

end Subplans
