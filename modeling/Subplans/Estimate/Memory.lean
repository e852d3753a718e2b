import Subplans.Assoc
import Subplans.Estimate.Basic
import Subplans.Query.Sql

/-!
Estimators that remember.

Queries with the same SQL have the same estimate, which is asked for once. An estimate that failed is not
remembered.
-/

namespace Subplans

abbrev Memory := List (String × Float)

namespace Estimator

variable {m : Type → Type} [Monad m]

-- Works in the same way with a state added below, which is left alone.
def lift {σ : Type} (e : Estimator m) : Estimator (StateT σ m) where
  connected s g := ExceptT.mk (StateT.lift (e.connected s g).run)

def remembering (e : Estimator m) : Estimator (StateT Memory m) where
  connected s g := do
    let key := g.sql s false
    match (← get).lookup key with
    | some x => return x
    | none =>
      let x ← e.lift.connected s g
      modify (Assoc.put key x)
      return x

def forget : StateT Memory m Unit :=
  set ([] : Memory)

end Estimator

namespace Backend

variable {m : Type → Type} [Monad m]

def lift {σ : Type} (b : Backend m) : Backend (StateT σ m) where
  explain sql settings := StateT.lift (b.explain sql settings)
  explainAnalyze sql settings := StateT.lift (b.explainAnalyze sql settings)
  count sql := StateT.lift (b.count sql)
  dataDirectory := StateT.lift b.dataDirectory

end Backend

end Subplans
