import Subplans.Predicate.Basic
import Subplans.Proofs.Predicate.Meaning

/-!
What comparisons say of the values in a row.

A `Collation` is how a database compares values; what it says of operators (`Collation.operator?`) and of
predicates (`ColumnPredicate.truth`) are told apart. Every symbol means the comparison it stands for, negated or
not (`operator?_of_symbol`), and a flipped one the same with its sides exchanged (`operator?_of_flip`).
-/

namespace Subplans

-- The values of the columns in a row, NULL where a column has none.
abbrev Row := ColumnRef → Value

-- How a database compares values other than NULL.
structure Collation where
  order    : Value → Value → Ordering
  swap     : ∀ x y, order y x = (order x y).swap
  -- A value matches another one as a pattern.
  matching : (ignoringCase : Bool) → Value → Value → Bool
  -- The number that a text looks like.
  number?  : Value → Option Value
  cast     : (type : String) → Value → Value

namespace Truth

def ofBool (b : Bool) : Truth :=
  if b then holds else fails

-- What is to hold if `positive`, and to fail if not.
def signed (positive : Bool) (t : Truth) : Truth :=
  if positive then t else t.not

@[simp] theorem signed_true {t : Truth} : signed true t = t :=
  rfl

@[simp] theorem signed_false {t : Truth} : signed false t = t.not :=
  rfl

theorem signed_not {positive : Bool} {t : Truth} : signed (!positive) t = (signed positive t).not := by
  cases positive <;> cases t <;> rfl

theorem not_ofBool {b : Bool} : (ofBool b).not = ofBool (!b) := by
  cases b <;> rfl

end Truth

def Value.isNull : Value → Bool
  | null => true
  | _ => false

namespace Collation

variable {k : Collation} {x y : Value}

-- A relation of two values is unknown where one of them is NULL.
def ask (relation : Value → Value → Bool) (x y : Value) : Truth :=
  if x.isNull || y.isNull then .unknown else .ofBool (relation x y)

-- Unlike equality this is known of NULL as well.
def same (k : Collation) (x y : Value) : Truth :=
  if x.isNull || y.isNull then .ofBool (x.isNull && y.isNull) else .ofBool (k.order x y == .eq)

def comparison (k : Collation) : Comparison → Value → Value → Truth
  | .eq => ask fun x y => k.order x y == .eq
  | .lt => ask fun x y => k.order x y == .lt
  | .gt => ask fun x y => k.order x y == .gt
  | .like => ask (k.matching false)
  | .ilike => ask (k.matching true)
  | .is => k.same

-- What an operator of SQL says of its two sides.
def operator? (k : Collation) : String → Option (Value → Value → Truth)
  | "=" => some (ask fun x y => k.order x y == .eq)
  | "<>" | "!=" => some (ask fun x y => k.order x y != .eq)
  | "<" => some (ask fun x y => k.order x y == .lt)
  | "<=" => some (ask fun x y => k.order x y != .gt)
  | ">" => some (ask fun x y => k.order x y == .gt)
  | ">=" => some (ask fun x y => k.order x y != .lt)
  | "LIKE" | "~~" => some (ask (k.matching false))
  | "!~~" => some (ask fun x y => !k.matching false x y)
  | "ILIKE" | "~~*" => some (ask (k.matching true))
  | "!~~*" => some (ask fun x y => !k.matching true x y)
  | "IS" => some k.same
  | _ => none

theorem not_ask {relation : Value → Value → Bool} :
    (ask relation x y).not = ask (fun x y => !relation x y) x y := by
  unfold ask
  split
  case isTrue => rfl
  case isFalse => exact Truth.not_ofBool

theorem ask_swap {relation relation' : Value → Value → Bool} (h : ∀ x y, relation y x = relation' x y) :
    ask relation y x = ask relation' x y := by
  rw [ask, ask, Bool.or_comm, h]

theorem comparison_null : k.comparison .is x .null = .ofBool x.isNull := by
  simp [comparison, same, Value.isNull]

theorem order_swap_eq {o : Ordering} : (k.order y x == o) = (k.order x y == o.swap) := by
  rw [k.swap x y]
  cases k.order x y <;> cases o <;> rfl

theorem operator?_of_symbol {symbol : String} {c : Comparison} {positive : Bool}
    (h : Comparison.ofSymbol? symbol = some (c, positive)) :
    k.operator? symbol = some fun x y => (k.comparison c x y).signed positive := by
  unfold Comparison.ofSymbol? at h
  split at h
  case h_15 => cases h
  all_goals
    cases h
    simp [operator?, comparison, not_ask, bne]

theorem operator?_of_flip {symbol flipped : String} (h : Comparison.flip? symbol = some flipped) :
    ∃ relation relation', k.operator? symbol = some relation ∧ k.operator? flipped = some relation' ∧
      ∀ x y, relation y x = relation' x y := by
  unfold Comparison.flip? at h
  split at h
  case h_8 => cases h
  all_goals
    cases h
    exact ⟨_, _, rfl, rfl, fun x y => ask_swap fun x y => by simp [bne, order_swap_eq (k := k) (x := x)]⟩

end Collation

namespace ColumnPredicate

-- A text that is compared with a number.
def isGuarded (p : ColumnPredicate) : Bool :=
  p.dataType.isText && p.value.isNumeric

-- The truth of a predicate for a row. Of texts that are compared with a number only those count that look like one.
def truth (k : Collation) (row : Row) (p : ColumnPredicate) : Truth :=
  let x := row p.column
  if p.isGuarded then
    (Collation.ask (fun x _ => (k.number? x).isSome) x p.value).and
      ((k.comparison p.comparison ((k.number? x).getD .null) p.value).signed p.positive)
  else (k.comparison p.comparison x p.value).signed p.positive

end ColumnPredicate

namespace Atom

variable {k : Collation} {row : Row} {other : String → Truth}

-- The truth of an atom for a row, where that of SQL text is given.
def truth (k : Collation) (row : Row) (other : String → Truth) : Atom → Truth
  | comparison p => p.truth k row
  | verbatim text positive => (other text).signed positive

-- The complement of the atom holds where the atom fails, and fails where it holds.
def isReversible : Atom → Bool
  | comparison p => !p.isGuarded
  | verbatim _ _ => true

theorem isReversible_complement {a : Atom} : a.complement.isReversible = a.isReversible := by
  cases a <;> rfl

theorem truth_complement {a : Atom} (h : a.isReversible = true) :
    a.complement.truth k row other = (a.truth k row other).not := by
  cases a
  case comparison p =>
    have hp : p.isGuarded = false := by simpa [isReversible] using h
    have hp' : p.complement.isGuarded = false := hp
    simp only [complement, truth, ColumnPredicate.truth, hp, hp']
    exact Truth.signed_not
  case verbatim => exact Truth.signed_not

end Atom

end Subplans
