import Mathlib.Logic.Relation
import Subplans.Schema.Basic

/-!
Walks along foreign keys, and chains of the pairs that they follow.

A `Bonds` relation tells which key has which pair of columns. A `Walk` is a connection that follows such
pairs from one column to another, and a `Chain` counts the pairs that lead from one column to another,
whatever keys they belong to. Two columns are equal by the pairs exactly if some chain links them
(`eqvGen_iff_chain`), and a further pair shortens a chain only by being used once (`Chain.split`).
-/

namespace Subplans

open Relation

-- Key `k` has the pair of the referencing column `a` and the referenced column `b`.
abbrev Bonds := Nat → ColumnRef → ColumnRef → Prop

namespace Bonds

-- One pair more.
def insert (B : Bonds) (k : Nat) (u v : ColumnRef) : Bonds :=
  fun j a b => B j a b ∨ (j = k ∧ a = u ∧ b = v)

-- Some key has the pair.
def Paired (B : Bonds) (a b : ColumnRef) : Prop :=
  ∃ k, B k a b

-- A step over key `k` leads from `a` to `b`.
def Crosses (B : Bonds) (k : Nat) (natural : Bool) (a b : ColumnRef) : Prop :=
  if natural then B k a b else B k b a

variable {B : Bonds}

theorem paired_insert {k u v a b} :
    (B.insert k u v).Paired a b ↔ B.Paired a b ∨ (a = u ∧ b = v) where
  mp := by
    rintro ⟨j, h | ⟨-, ha, hb⟩⟩
    case inl => exact .inl ⟨j, h⟩
    case inr => exact .inr ⟨ha, hb⟩
  mpr := by
    rintro (⟨j, h⟩ | ⟨rfl, rfl⟩)
    case inl => exact ⟨j, .inl h⟩
    case inr => exact ⟨k, .inr ⟨rfl, rfl, rfl⟩⟩

theorem Crosses.flip {k natural a b} (h : B.Crosses k natural a b) : B.Crosses k (!natural) b a := by
  cases natural <;> exact h

theorem Crosses.paired {k natural a b} (h : B.Crosses k natural a b) : B.Paired a b ∨ B.Paired b a := by
  cases natural
  case false => exact .inr ⟨k, h⟩
  case true => exact .inl ⟨k, h⟩

end Bonds

-- Joins and the tables between them alternate; a join leads over a pair of its key, and the table after
-- it is the one that the pair has led to.
inductive Walk (R : Nat → Bool → ColumnRef → ColumnRef → Prop) : ColumnRef → Connection → ColumnRef → Prop
  | single {k natural a b} : R k natural a b → Walk R a [.join k natural] b
  | cons {k natural a b c w} :
    R k natural a b → Walk R b w c → Walk R a (.join k natural :: .table b.table :: w) c

namespace Step

def isJoin : Step → Bool
  | table _ => false
  | join _ _ => true

theorem isJoin_flip (s : Step) : s.flip.isJoin = s.isJoin := by
  cases s <;> rfl

end Step

namespace Connection

-- How many keys the walk goes over.
def joins (w : Connection) : Nat :=
  w.countP Step.isJoin

theorem length_reversed (w : Connection) : w.reversed.length = w.length := by
  simp [reversed]

theorem joins_reversed (w : Connection) : w.reversed.joins = w.joins := by
  simp [reversed, joins, List.countP_map, Function.comp_def, Step.isJoin_flip]

@[simp] theorem joins_single (k : Nat) (natural : Bool) : joins [.join k natural] = 1 :=
  rfl

@[simp] theorem joins_cons (k : Nat) (natural : Bool) (t : Nat) (w : Connection) :
    joins (.join k natural :: .table t :: w) = joins w + 1 := by
  have hj : Step.isJoin (.join k natural) = true := rfl
  have ht : ¬Step.isJoin (.table t) = true := nofun
  rw [joins, joins, List.countP_cons_of_pos hj, List.countP_cons_of_neg ht]

end Connection

namespace Walk

variable {R R' : Nat → Bool → ColumnRef → ColumnRef → Prop} {a b c : ColumnRef} {w w' : Connection}

theorem mono (h : ∀ k natural a b, R k natural a b → R' k natural a b) (hw : Walk R a w b) :
    Walk R' a w b := by
  induction hw
  case single hr => exact .single (h _ _ _ _ hr)
  case cons hr _ ih => exact .cons (h _ _ _ _ hr) ih

theorem append (h : Walk R a w b) (h' : Walk R b w' c) : Walk R a (w ++ .table b.table :: w') c := by
  induction h
  case single hr => exact .cons hr h'
  case cons hr _ ih => exact .cons hr (ih h')

theorem reversed (hR : ∀ {k natural a b}, R k natural a b → R k (!natural) b a) (h : Walk R a w b) :
    Walk R b w.reversed a := by
  induction h
  case single hr => exact .single (hR hr)
  case cons k natural a b c w hr _ ih =>
    have hlast : Walk R b [.join k (!natural)] a := .single (hR hr)
    simpa [Connection.reversed, Step.flip] using ih.append hlast

-- A walk begins and ends with a join, so it holds one table less than joins.
theorem length_add_one (h : Walk R a w b) : w.length + 1 = 2 * w.joins := by
  induction h
  case single => rfl
  case cons ih =>
    simp only [Connection.joins_cons, List.length_cons]
    omega

end Walk

-- `n` pairs, each used in either direction, lead from one column to another.
inductive Chain (P : ColumnRef → ColumnRef → Prop) : Nat → ColumnRef → ColumnRef → Prop
  | nil {a} : Chain P 0 a a
  | cons {n a b c} : (P a b ∨ P b a) → Chain P n b c → Chain P (n + 1) a c

namespace Chain

variable {P Q : ColumnRef → ColumnRef → Prop} {a b c u v : ColumnRef} {n m : Nat}

theorem trans (h : Chain P n a b) (h' : Chain P m b c) : Chain P (n + m) a c := by
  induction h
  case nil => simpa using h'
  case cons hp _ ih => exact Nat.add_right_comm .. ▸ .cons hp (ih h')

theorem symm (h : Chain P n a b) : Chain P n b a := by
  induction h
  case nil => exact .nil
  case cons hp _ ih => exact ih.trans (.cons hp.symm .nil)

theorem eqvGen (h : Chain P n a b) : EqvGen P a b := by
  induction h
  case nil => exact .refl _
  case cons hp _ ih =>
    cases hp
    case inl hp => exact .trans _ _ _ (.rel _ _ hp) ih
    case inr hp => exact .trans _ _ _ (.symm _ _ (.rel _ _ hp)) ih

end Chain

theorem eqvGen_iff_chain {P : ColumnRef → ColumnRef → Prop} {a b : ColumnRef} :
    EqvGen P a b ↔ ∃ n, Chain P n a b where
  mp h := by
    induction h
    case rel hp => exact ⟨1, .cons (.inl hp) .nil⟩
    case refl => exact ⟨0, .nil⟩
    case symm ih =>
      have ⟨n, h⟩ := ih
      exact ⟨n, h.symm⟩
    case trans ih ih' =>
      have ⟨n, h⟩ := ih
      have ⟨m, h'⟩ := ih'
      exact ⟨n + m, h.trans h'⟩
  mpr h := h.choose_spec.eqvGen

-- A chain in which the pair of `u` and `v` may be used can do with at most one use of it.
theorem Chain.split {P Q : ColumnRef → ColumnRef → Prop} {a b u v : ColumnRef} {n : Nat}
    (hQ : ∀ {a b}, Q a b → P a b ∨ (a = u ∧ b = v)) (h : Chain Q n a b) :
    (∃ m ≤ n, Chain P m a b) ∨
    (∃ i j, i + 1 + j ≤ n ∧ Chain P i a u ∧ Chain P j v b) ∨
    (∃ i j, i + 1 + j ≤ n ∧ Chain P i a v ∧ Chain P j u b) := by
  induction h
  case nil => exact .inl ⟨0, Nat.le_refl _, .nil⟩
  case cons n a c b hq _ ih =>
    -- The first step is an old pair, or the new one in either direction.
    have first : (P a c ∨ P c a) ∨ (a = u ∧ c = v) ∨ (a = v ∧ c = u) := by
      cases hq
      case inl hq => exact (hQ hq).elim (.inl <| .inl ·) (.inr <| .inl ·)
      case inr hq => exact (hQ hq).elim (.inl <| .inr ·) (fun h => .inr <| .inr ⟨h.2, h.1⟩)
    rcases first with hp | ⟨rfl, rfl⟩ | ⟨rfl, rfl⟩
    · rcases ih with ⟨m, hm, h⟩ | ⟨i, j, hij, hi, hj⟩ | ⟨i, j, hij, hi, hj⟩
      · exact .inl ⟨m + 1, by omega, .cons hp h⟩
      · exact .inr <| .inl ⟨i + 1, j, by omega, .cons hp hi, hj⟩
      · exact .inr <| .inr ⟨i + 1, j, by omega, .cons hp hi, hj⟩
    · rcases ih with ⟨m, hm, h⟩ | ⟨i, j, hij, hi, hj⟩ | ⟨i, j, hij, hi, hj⟩
      · exact .inr <| .inl ⟨0, m, by omega, .nil, h⟩
      · exact .inr <| .inl ⟨0, j, by omega, .nil, hj⟩
      · exact .inl ⟨j, by omega, hj⟩
    · rcases ih with ⟨m, hm, h⟩ | ⟨i, j, hij, hi, hj⟩ | ⟨i, j, hij, hi, hj⟩
      · exact .inr <| .inr ⟨0, m, by omega, .nil, h⟩
      · exact .inl ⟨j, by omega, hj⟩
      · exact .inr <| .inr ⟨0, j, by omega, .nil, hj⟩

namespace Walk

variable {B : Bonds} {a b : ColumnRef} {w : Connection}

theorem chain (h : Walk B.Crosses a w b) : Chain B.Paired w.joins a b := by
  induction h
  case single hr => exact .cons hr.paired .nil
  case cons hr _ ih => exact Connection.joins_cons .. ▸ .cons hr.paired ih

-- A walk that takes a step from a column to itself is longer than some chain. So the shortest walks do
-- without such steps.
theorem proper_or_shorter (h : Walk B.Crosses a w b) :
    Walk (fun k natural a b => B.Crosses k natural a b ∧ a ≠ b) a w b ∨
      ∃ n < w.joins, Chain B.Paired n a b := by
  induction h
  case single k natural a b hr =>
    by_cases hab : a = b
    case pos => exact .inr ⟨0, by simp, hab ▸ .nil⟩
    case neg => exact .inl (.single ⟨hr, hab⟩)
  case cons k natural a b c w hr hw ih =>
    rw [Connection.joins_cons]
    by_cases hab : a = b
    case pos => exact .inr ⟨w.joins, by omega, hab ▸ hw.chain⟩
    case neg =>
      cases ih
      case inl ih => exact .inl (.cons ⟨hr, hab⟩ ih)
      case inr ih =>
        have ⟨n, hn, hc⟩ := ih
        exact .inr ⟨n + 1, by omega, .cons hr.paired hc⟩

end Walk

end Subplans
