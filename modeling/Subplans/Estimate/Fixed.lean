import Subplans.Backend.Script
import Subplans.Estimate.Basic
import Subplans.Query.Sql

/-!
Estimates that are laid down in advance.
-/

namespace Subplans.Estimator

variable {m : Type → Type} [Monad m]

-- The value of the first rule whose pattern occurs in the SQL of a query, or else the sum of the cardinalities of its
-- nodes; an empty sum is the negative zero, which is neutral.
def fixed (rules : Rules Float) : Estimator m where
  connected s g := pure <| (rules.first? (g.sql s false)).getD
    ((g.realNodes.map fun n => (g.node n).cardinality).foldl (· + ·) (-0.0))

end Subplans.Estimator
