import Subplans.Proofs.Equalities.Classes
import Subplans.Proofs.Graph.Forces

/-!
What each step of collecting equalities can do.

`Taken` and `Compared` tell apart the ways in which a pair of columns is taken in and a slot is compared with
another one. What a step keeps is shown by cases on them, never by opening the step.
-/

namespace Subplans.Equalities

open QueryGraph

variable {g : QueryGraph} {q : Equalities} {node n m steps : Nat} {edge : Edge} {order : List Nat} {updated : List Slot}
  {pair : ColumnRef × ColumnRef} {a b l r up candidate : Slot}

-- The node has the equality.
def StatesAt (q : Equalities) (n : Nat) (a b : Slot) : Prop :=
  ∃ eqs, (n, eqs) ∈ q.conditions ∧ (a, b) ∈ eqs

-- Some node has the equality.
def Collected (q : Equalities) (a b : Slot) : Prop :=
  ∃ n, q.StatesAt n a b

theorem map_fst_state : (q.state n l r).conditions.map Prod.fst = q.conditions.map Prod.fst := by
  rw [state, List.map_map]
  refine List.map_congr_left fun v _ => ?_
  by_cases h : v.1 = n <;> simp [h]

theorem statesAt_state : (q.state n l r).StatesAt m a b ↔
    q.StatesAt m a b ∨ (m = n ∧ a = l ∧ b = r ∧ n ∈ q.conditions.map Prod.fst) := by
  simp only [StatesAt, state, List.mem_map, beq_iff_eq]
  constructor
  · rintro ⟨eqs, ⟨⟨k, old⟩, hold, heq⟩, hab⟩
    by_cases hk : k = n
    case neg =>
      rw [if_neg hk] at heq
      cases heq
      exact .inl ⟨old, hold, hab⟩
    case pos =>
      rw [if_pos hk] at heq
      cases heq
      rcases List.mem_append.mp hab with hab | hab
      · exact .inl ⟨old, hold, hab⟩
      · cases List.mem_singleton.mp hab
        exact .inr ⟨hk, rfl, rfl, (k, old), hold, hk⟩
  · rintro (⟨eqs, heqs, hab⟩ | ⟨rfl, rfl, rfl, ⟨k, eqs⟩, heqs, rfl⟩)
    · by_cases hm : m = n
      case pos => exact ⟨eqs ++ [(l, r)], ⟨(m, eqs), heqs, by simp [hm]⟩, List.mem_append_left _ hab⟩
      case neg => exact ⟨eqs, ⟨(m, eqs), heqs, by simp [hm]⟩, hab⟩
    · exact ⟨eqs ++ [(a, b)], ⟨(k, eqs), heqs, by simp⟩, by simp⟩

theorem collected_state : (q.state n l r).Collected a b ↔
    q.Collected a b ∨ (a = l ∧ b = r ∧ n ∈ q.conditions.map Prod.fst) := by
  simp only [Collected, statesAt_state, exists_or, exists_eq_left]

-- The slots that are entered among those that may have to be compared.
def enter (updated : List Slot) (a b : Slot) : List Slot :=
  [a, b].foldl (fun u s => if u.contains s then u else u ++ [s]) updated

theorem mem_enter {p : Slot} : p ∈ enter updated a b ↔ p ∈ updated ∨ p = a ∨ p = b := by
  simp only [enter, List.foldl_cons, List.foldl_nil, List.contains_iff_mem]
  grind

-- The source of a slot is the one that it refers to, if that can be mentioned.
def sourced (g : QueryGraph) (q : Equalities) (a b : Slot) : List (Slot × Slot) :=
  if g.isVirtual b.node then q.source else Assoc.put a b q.source

inductive Taken (g : QueryGraph) (node : Nat) (q : Equalities) (updated : List Slot) (a b : Slot) :
    Equalities × List Slot → Prop
  | known : q.required.same a b = true → Taken g node q updated a b (q, updated)
  | stated : ¬q.required.same a b = true → g.isVirtual a.node = false → g.isVirtual b.node = false →
    Taken g node q updated a b
      ({ { q with required := q.required.union a b, stated := q.stated.union a b }.state node a b with
        source := sourced g q a b }, updated)
  | entered : ¬q.required.same a b = true → (g.isVirtual a.node = true ∨ g.isVirtual b.node = true) →
    Taken g node q updated a b
      ({ q with required := q.required.union a b, source := sourced g q a b }, enter updated a b)

theorem taken_addPair : Taken g node q updated ⟨edge.source, pair.1⟩ ⟨edge.target, pair.2⟩
    (addPair g node edge (q, updated) pair) := by
  by_cases h : q.required.same ⟨edge.source, pair.1⟩ ⟨edge.target, pair.2⟩ = true
  case pos =>
    have heq : addPair g node edge (q, updated) pair = (q, updated) := by simp [addPair, h]
    rw [heq]
    exact .known h
  case neg =>
    cases ha : g.isVirtual edge.source <;> cases hb : g.isVirtual edge.target
    case false.false =>
      have htaken : Taken g node q updated ⟨edge.source, pair.1⟩ ⟨edge.target, pair.2⟩ _ := .stated h ha hb
      simpa [addPair, h, ha, hb, sourced, state] using htaken
    all_goals
      have hends : g.isVirtual edge.source = true ∨ g.isVirtual edge.target = true := by simp [ha, hb]
      have htaken : Taken g node q updated ⟨edge.source, pair.1⟩ ⟨edge.target, pair.2⟩ _ := .entered h hends
      simpa [addPair, h, ha, hb, sourced, enter] using htaken

inductive Compared (g : QueryGraph) (order : List Nat) (q : Equalities) (up candidate : Slot) :
    Equalities × Slot → Prop
  | near : candidate.node = up.node → Compared g order q up candidate (q, up)
  | virtual : g.isVirtual candidate.node = true → Compared g order q up candidate (q, up)
  | stated : q.stated.same up candidate = true → Compared g order q up candidate (q, up)
  | new {l r : Slot} {source : List (Slot × Slot)} : candidate.node ≠ up.node →
    g.isVirtual candidate.node = false → ¬q.stated.same up candidate = true →
    (l = q.root candidate ∧ r = q.root up) ∨ (l = q.root up ∧ r = q.root candidate) →
    order.idxOf r.node ≤ order.idxOf l.node → source = q.source ∨ source = Assoc.put l r q.source →
    Compared g order q up candidate
      ({ q with stated := q.stated.union (q.root up) (q.root candidate), source }.state l.node l r, q.root up)

theorem compared_compareWith : Compared g order q up candidate (compareWith g order (q, up) candidate) := by
  by_cases hnode : candidate.node = up.node
  case pos => simpa [compareWith, hnode] using Compared.near hnode
  by_cases hv : g.isVirtual candidate.node = true
  case pos => simpa [compareWith, hv] using Compared.virtual hv
  by_cases hs : q.stated.same up candidate = true
  case pos => simpa [compareWith, hs] using Compared.stated hs
  have hv : g.isVirtual candidate.node = false := by simpa using hv
  simp only [compareWith, hnode, hv, hs, beq_iff_eq, Bool.or_eq_true, or_self, if_false, Bool.false_eq_true]
  by_cases hlt : order.idxOf (q.root up).node < order.idxOf (q.root candidate).node
  case pos =>
    simp only [hlt, if_true]
    split
    · exact .new hnode hv hs (.inl ⟨rfl, rfl⟩) (Nat.le_of_lt hlt) (.inr rfl)
    · exact .new hnode hv hs (.inl ⟨rfl, rfl⟩) (Nat.le_of_lt hlt) (.inl rfl)
  case neg =>
    simp only [hlt, if_false]
    split
    · exact .new hnode hv hs (.inr ⟨rfl, rfl⟩) (Nat.le_of_not_lt hlt) (.inr rfl)
    · exact .new hnode hv hs (.inr ⟨rfl, rfl⟩) (Nat.le_of_not_lt hlt) (.inl rfl)

-- The chain of sources is followed among slots that are stated to be equal.
theorem same_follow (hq : q.stated.Partition) : q.stated.same a (q.follow steps a) = true := by
  induction steps generalizing a
  case zero => exact SlotClasses.same_refl
  case succ steps ih =>
    rw [follow]
    split
    case h_1 next _ =>
      split
      case isTrue h => exact SlotClasses.same_trans hq (SlotClasses.same_symm hq h) ih
      case isFalse => exact SlotClasses.same_refl
    case h_2 => exact SlotClasses.same_refl

theorem same_root (hq : q.stated.Partition) : q.stated.same a (q.root a) = true :=
  same_follow hq

end Subplans.Equalities
