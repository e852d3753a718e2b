import Subplans.Estimate.Basic
import Subplans.Proofs.Effects

/-!
Runs that go like other runs, step by step.

What an estimator comes to for a query is put together from what it comes to for connected queries. So two estimators
that go alike for these go alike for all queries (`estimate_simulates`, `estimateAll_simulates`), whatever it is that
they do besides.
-/

namespace Subplans

namespace Outcome

variable {α β ε σ : Type} {m n : Type → Type} [Monad m] [Monad n]

-- What the run from the state `s` comes to.
def outcome (x : ExceptT ε (StateM σ) α) (s : σ) : Except ε α :=
  (x.run.run s).run.1

theorem outcome_bind {x : ExceptT ε (StateM σ) α} {f : α → ExceptT ε (StateM σ) β} {s : σ} :
    outcome (x >>= f) s = outcome x s >>= fun a => outcome (f a) (after x s) := by
  rw [outcome, outcome, run_bind, after]
  rcases (x.run.run s).run with ⟨_ | _, _⟩
  case error => rfl
  case ok => rfl

-- Runs in one monad go like those in another one, and still do when both take a further step.
structure Simulation (ε : Type) (m n : Type → Type) [Monad m] [Monad n] where
  Simulates {α : Type} : ExceptT ε m α → ExceptT ε n α → Prop
  answer {α : Type} (a : α) : Simulates (pure a) (pure a)
  follow {α β : Type} {x : ExceptT ε m α} {y : ExceptT ε n α} {f : α → ExceptT ε m β} {g : α → ExceptT ε n β} :
    Simulates x y → (∀ a, Simulates (f a) (g a)) → Simulates (x >>= f) (y >>= g)

namespace Simulation

theorem mapM [LawfulMonad m] [LawfulMonad n] (r : Simulation ε m n) {f : α → ExceptT ε m β} {g : α → ExceptT ε n β}
    (h : ∀ a, r.Simulates (f a) (g a)) (xs : List α) : r.Simulates (xs.mapM f) (xs.mapM g) := by
  induction xs
  case nil => exact r.answer []
  case cons x xs ih =>
    rw [List.mapM_cons, List.mapM_cons]
    exact r.follow (h x) fun _ => r.follow ih fun _ => r.answer _

-- The one run comes to the same as the other from whatever states they start.
def steady : Simulation ε (StateM σ) (StateM σ) where
  Simulates x y := ∀ s s', outcome x s = outcome y s'
  answer _ _ _ := rfl
  follow hx hf s s' := by
    rw [outcome_bind, outcome_bind, hx s s']
    congr 1
    funext a
    exact hf a _ _

end Simulation

-- Where the steps do not depend on the state, they come to the same as without one.
theorem outcome_mapM {f : α → ExceptT ε (StateM σ) β} (hf : ∀ a s s', outcome (f a) s = outcome (f a) s')
    (xs : List α) (s s' : σ) : outcome (xs.mapM f) s = xs.mapM fun x => outcome (f x) s' := by
  induction xs generalizing s
  case nil => rfl
  case cons x xs ih =>
    rw [List.mapM_cons, List.mapM_cons, outcome_bind, hf x s s']
    congr 1
    funext y
    rw [outcome_bind, ih]
    rfl

end Outcome

namespace Estimator

open Outcome

variable {m n : Type → Type} [Monad m] [Monad n] {e : Estimator m} {e' : Estimator n} {s : Schema}

theorem estimateFactors_simulates (r : Simulation BackendError m n)
    (h : ∀ g, r.Simulates (e.connected s g) (e'.connected s g)) (product : Float) (factors : List QueryGraph) :
    r.Simulates (e.estimateFactors s product factors) (e'.estimateFactors s product factors) := by
  induction factors generalizing product
  case nil => exact r.answer product
  case cons g rest ih =>
    refine r.follow (h g) fun x => ?_
    split
    case isTrue => exact r.answer unknownEstimate
    case isFalse => exact ih _

theorem estimate_simulates (r : Simulation BackendError m n)
    (h : ∀ g, r.Simulates (e.connected s g) (e'.connected s g)) (query : Option QueryGraph) :
    r.Simulates (e.estimate s query) (e'.estimate s query) := by
  cases query
  case none => exact r.answer unknownEstimate
  case some g =>
    rw [estimate, estimate]
    split
    case isTrue => exact estimateFactors_simulates r h 1 _
    case isFalse => exact h g

theorem estimateAll_simulates [LawfulMonad m] [LawfulMonad n] (r : Simulation BackendError m n)
    (h : ∀ g, r.Simulates (e.connected s g) (e'.connected s g)) (queries : List (Option QueryGraph)) :
    r.Simulates (e.estimateAll s queries) (e'.estimateAll s queries) :=
  r.mapM (estimate_simulates r h) queries

end Estimator

end Subplans
