import Subplans.Backend.Basic
import Subplans.Proofs.Effects

/-!
What a database can answer.

`Backend.Answers` says which answers there can be to a statement. What a run comes to that asks for plans is told from
that (`always_ask`).
-/

namespace Subplans

open Outcome

-- The statement was refused or took too long, which says something of the statement only.
def BackendError.isSoft : BackendError → Bool
  | .rejected _ | .timeout => true
  | _ => false

-- What is answered to a statement is what can be answered to it.
def Backend.Answers {m : Type → Type} [Monad m] (b : Backend m) (A : String → Except BackendError Explain → Prop) :
    Prop :=
  ∀ sql settings, ∃ c : m {answer // A sql answer}, b.explain sql settings = Subtype.val <$> c

variable {α ε σ : Type} {m : Type → Type} [Monad m] [LawfulMonad m] {s : Schema}
  {A : String → Except BackendError Explain → Prop}

-- A database with a state answers what it answers in one of its states.
theorem Backend.answers_states (b : Backend (StateM σ)) : b.Answers fun sql answer =>
    ∃ settings st, ((b.explain sql settings).run st).run.1 = answer :=
  fun sql settings => ⟨fun st => (⟨_, settings, st, rfl⟩, ((b.explain sql settings).run st).run.2), rfl⟩

-- A statement is asked, and what follows depends on the answer.
theorem Outcome.always_ask {P : Except ε α → Prop} {b : Backend m} {sql : String}
    {f : Except BackendError Explain → ExceptT ε m α} (hA : b.Answers A)
    (h : ∀ answer, A sql answer → Always P (f answer)) : Always P (ExceptT.lift (b.explain sql []) >>= f) := by
  let Asked : Except ε (Except BackendError Explain) → Prop
    | .ok answer => A sql answer
    | .error _ => False
  have hasked : Always Asked (ExceptT.lift (b.explain sql [])) := always_lift (hA _ _) fun _ => id
  exact hasked.bind h fun _ => False.elim

theorem Outcome.always_found {b : Backend m} (hA : b.Answers A) (table : Nat) (clauses : Clauses) (aliasName : String) :
    Always (Ending (fun o => ∃ cardinality, o = ⟨table, cardinality, clauses, false⟩)
      fun e => A (Occurrence.sql s table clauses aliasName) (.error e) ∧ e ≠ .timeout)
      (b.occurrence s table clauses aliasName) := by
  rw [Backend.occurrence]
  dsimp only
  split
  case isTrue => exact always_pure ⟨_, rfl⟩
  case isFalse =>
    refine always_ask hA fun answer hanswer => ?_
    split
    case h_1 => exact always_pure ⟨_, rfl⟩
    case h_2 => exact always_pure ⟨_, rfl⟩
    case h_3 e htimeout => exact always_throw ⟨hanswer, htimeout⟩

end Subplans
