import Mathlib.Data.List.Basic

/-!
Truth of conditions in SQL.

For a row a condition holds, fails or is unknown. AND and OR are told by the side that decides them, and OR is
distributive over AND for unknown sides as well (`or_and`, `and_or`).
-/

namespace Subplans

inductive Truth
  | holds
  | fails
  | unknown
deriving DecidableEq, Repr

namespace Truth

protected def not : Truth → Truth
  | holds => fails
  | fails => holds
  | unknown => unknown

-- A side that fails decides, and otherwise a side that is unknown.
protected def and : Truth → Truth → Truth
  | fails, _ => fails
  | _, fails => fails
  | holds, holds => holds
  | _, _ => unknown

-- A side that holds decides, and otherwise a side that is unknown.
protected def or : Truth → Truth → Truth
  | holds, _ => holds
  | _, holds => holds
  | fails, fails => fails
  | _, _ => unknown

-- Conditions with AND between them.
def all (ts : List Truth) : Truth :=
  ts.foldr Truth.and holds

-- Conditions with OR between them.
def any (ts : List Truth) : Truth :=
  ts.foldr Truth.or fails

variable {t x y z : Truth} {ts us : List Truth}

@[simp] theorem all_nil : all [] = holds :=
  rfl

@[simp] theorem all_cons : all (t :: ts) = t.and (all ts) :=
  rfl

@[simp] theorem any_nil : any [] = fails :=
  rfl

@[simp] theorem any_cons : any (t :: ts) = t.or (any ts) :=
  rfl

@[simp] theorem holds_and : holds.and x = x := by
  cases x <;> rfl

@[simp] theorem and_holds : x.and holds = x := by
  cases x <;> rfl

@[simp] theorem fails_or : fails.or x = x := by
  cases x <;> rfl

@[simp] theorem or_fails : x.or fails = x := by
  cases x <;> rfl

@[simp] theorem holds_or : holds.or x = holds := by
  cases x <;> rfl

@[simp] theorem or_holds : x.or holds = holds := by
  cases x <;> rfl

theorem and_assoc : (x.and y).and z = x.and (y.and z) := by
  cases x <;> cases y <;> cases z <;> rfl

theorem or_assoc : (x.or y).or z = x.or (y.or z) := by
  cases x <;> cases y <;> cases z <;> rfl

theorem or_and : x.or (y.and z) = (x.or y).and (x.or z) := by
  cases x <;> cases y <;> cases z <;> rfl

theorem and_or : (x.and y).or z = (x.or z).and (y.or z) := by
  cases x <;> cases y <;> cases z <;> rfl

theorem not_and : (x.and y).not = x.not.or y.not := by
  cases x <;> cases y <;> rfl

theorem not_or : (x.or y).not = x.not.and y.not := by
  cases x <;> cases y <;> rfl

theorem all_append : all (ts ++ us) = (all ts).and (all us) := by
  induction ts
  case nil => simp
  case cons ih => simp [ih, and_assoc]

theorem any_append : any (ts ++ us) = (any ts).or (any us) := by
  induction ts
  case nil => simp
  case cons ih => simp [ih, or_assoc]

theorem not_all : (all ts).not = any (ts.map Truth.not) := by
  induction ts
  case nil => rfl
  case cons ih => rw [all_cons, not_and, ih, List.map_cons, any_cons]

theorem not_any : (any ts).not = all (ts.map Truth.not) := by
  induction ts
  case nil => rfl
  case cons ih => rw [any_cons, not_or, ih, List.map_cons, all_cons]

end Truth

end Subplans
