import Subplans.Proofs.Graph.Forces
import Subplans.Query.Merge

/-!
Graphs in which nodes have been taken out in favour of others.

`Folding` tells where each node has gone and what stays: nodes that are not virtual, the edges between the
places, and the equalities between columns of nodes that are not virtual (`Folding.agree`).
-/

namespace Subplans

namespace QueryGraph

open Closure Relation

variable {s : Schema} {g g' g'' : QueryGraph} {n : Nat} {p q : Slot} {φ ψ : Nat → Nat}

-- Each node `n` of `g` stands at the place `φ n` of `g'`. A column that is used is used at the place as
-- well, and has to be equal to the column there.
structure Folding (s : Schema) (g g' : QueryGraph) (φ : Nat → Nat) : Prop where
  node?     : ∀ n, g'.contains n = true → g'.node? n = g.node? n
  aliasName : ∀ n, g'.aliasName n = g.aliasName n
  contains  : ∀ n, g.contains n = true → g'.contains (φ n) = true
  realNodes : g'.realNodes = g.realNodes
  fixed     : ∀ n ∈ g.realNodes, φ n = n
  hasEdge   : ∀ x, g'.HasEdge x ↔ ∃ y, g.HasEdge y ∧ y.map φ = x
  uses      : ∀ p, g.Uses s p → g.Uses s (p.map φ)
  glue      : ∀ p, g.Uses s p → g.Forces s p (p.map φ)

namespace Folding

theorem of_sameNodes (h : SameNodes g g') (hx : ∀ x, g'.HasEdge x ↔ g.HasEdge x) : Folding s g g' id where
  node? n _ := h.node? n
  aliasName := h.aliasName
  contains n hn := h.contains.trans hn
  realNodes := h.realNodes
  fixed _ _ := rfl
  hasEdge x := by simp [hx, Edge.map]
  uses _ := id
  glue _ _ := .refl _

theorem relates_iff (h : Folding s g g' φ) :
    g'.Relates s p q ↔ ∃ p' q', g.Relates s p' q' ∧ p'.map φ = p ∧ q'.map φ = q where
  mp := by
    rintro ⟨x, hx, hs, ht, hp⟩
    obtain ⟨y, hy, rfl⟩ := (h.hasEdge x).mp hx
    exact ⟨⟨y.source, p.column⟩, ⟨y.target, q.column⟩, ⟨y, hy, rfl, rfl, hp⟩, congrArg (Slot.mk · p.column) hs,
      congrArg (Slot.mk · q.column) ht⟩
  mpr := by
    rintro ⟨p', q', ⟨y, hy, hs, ht, hp⟩, rfl, rfl⟩
    exact ⟨y.map φ, (h.hasEdge _).mpr ⟨y, hy, rfl⟩, congrArg φ hs, congrArg φ ht, hp⟩

theorem uses_map (h : Folding s g g' φ) (hp : g.Uses s p) : g'.Uses s (p.map φ) := by
  have ⟨q, hpq⟩ := hp
  refine ⟨q.map φ, ?_⟩
  cases hpq
  case inl hpq => exact .inl (h.relates_iff.mpr ⟨p, q, hpq, rfl, rfl⟩)
  case inr hpq => exact .inr (h.relates_iff.mpr ⟨q, p, hpq, rfl, rfl⟩)

theorem uses_of (h : Folding s g g' φ) (hp : g'.Uses s p) : g.Uses s p := by
  have ⟨q, hpq⟩ := hp
  cases hpq
  case inl hpq =>
    obtain ⟨p', q', hrel, rfl, rfl⟩ := h.relates_iff.mp hpq
    exact h.uses p' ⟨q', .inl hrel⟩
  case inr hpq =>
    obtain ⟨q', p', hrel, rfl, rfl⟩ := h.relates_iff.mp hpq
    exact h.uses p' ⟨q', .inr hrel⟩

theorem forces_map (h : Folding s g g' φ) (hpq : g.Forces s p q) : g'.Forces s (p.map φ) (q.map φ) :=
  Closure.map _ (fun p q hpq => .rel _ _ (h.relates_iff.mpr ⟨p, q, hpq, rfl, rfl⟩)) hpq

theorem forces_of (h : Folding s g g' φ) (hpq : g'.Forces s p q) : g.Forces s p q := by
  apply of_le _ hpq
  intro p q hpq
  -- The edge has come from one whose ends were equal to those that stand for them now.
  obtain ⟨p', q', hrel, rfl, rfl⟩ := h.relates_iff.mp hpq
  have hp := h.glue p' ⟨q', .inl hrel⟩
  have hq := h.glue q' ⟨p', .inr hrel⟩
  exact .trans _ _ _ (.symm _ _ hp) (.trans _ _ _ (.rel _ _ hrel) hq)

theorem map_eq (h : Folding s g g' φ) (hp : g.Real p) : p.map φ = p := by
  rw [Slot.map, h.fixed _ hp]

theorem contains_of (h : Folding s g g' φ) (hn : g'.contains n = true) : g.contains n = true := by
  have hnode := h.node? n hn
  rwa [QueryGraph.contains, ← hnode]

theorem isVirtual (h : Folding s g g' φ) (hn : g'.contains n = true) : g'.isVirtual n = g.isVirtual n := by
  rw [QueryGraph.isVirtual, QueryGraph.isVirtual, h.node? n hn]

theorem trans (h : Folding s g g' φ) (h' : Folding s g' g'' ψ) : Folding s g g'' (ψ ∘ φ) where
  node? n hn := (h'.node? n hn).trans (h.node? n (h'.contains_of hn))
  aliasName n := (h'.aliasName n).trans (h.aliasName n)
  contains n hn := h'.contains _ (h.contains n hn)
  realNodes := h'.realNodes.trans h.realNodes
  fixed n hn := by
    have hfix := h'.fixed n (h.realNodes ▸ hn)
    rw [Function.comp, h.fixed n hn, hfix]
  hasEdge x := by
    rw [h'.hasEdge]
    constructor
    · rintro ⟨_, hy, rfl⟩
      obtain ⟨z, hz, rfl⟩ := (h.hasEdge _).mp hy
      exact ⟨z, hz, rfl⟩
    · rintro ⟨z, hz, rfl⟩
      exact ⟨z.map φ, (h.hasEdge _).mpr ⟨z, hz, rfl⟩, rfl⟩
  uses p hp := h.uses_of (h'.uses _ (h.uses_map hp))
  glue p hp := .trans _ _ _ (h.glue p hp) (h.forces_of (h'.glue _ (h.uses_map hp)))

theorem tidy (h : Folding s g g' φ) (hg : g.Tidy s) (hwf : g'.WellFormed) : g'.Tidy s where
  wellFormed := hwf
  proper x hx := by
    obtain ⟨y, hy, rfl⟩ := (h.hasEdge x).mp hx
    exact hg.proper y hy
  single n c d hn hc hd :=
    hg.single n c d (h.isVirtual (contains_of_isVirtual hn) ▸ hn) (h.uses_of hc) (h.uses_of hd)

theorem keeps (h : Folding s g g' φ) (hg : g.WellFormed) : Keeps g g' where
  realNodes := h.realNodes
  node? n hn := by
    have hcontains := h.contains n (hg.mem_realNodes.mp hn).1
    rw [h.fixed n hn] at hcontains
    exact h.node? n hcontains
  aliasName n _ := h.aliasName n
  named hnamed n hn := by
    rw [h.isVirtual hn, h.aliasName]
    exact hnamed n (h.contains_of hn)

theorem agree (h : Folding s g g' φ) : Agree g.Real (g'.Relates s) (g.Relates s) := by
  intro p q hp hq
  constructor
  · exact h.forces_of
  · intro hpq
    have := h.forces_map hpq
    rwa [h.map_eq hp, h.map_eq hq] at this

-- The same with an equality of a slot that is used.
theorem agree_pair (h : Folding s g g' φ) (hp : g.Uses s p) (hq : g.Real q) :
    Agree g.Real (Either (g'.Relates s) (Pair (p.map φ) q)) (Either (g.Relates s) (Pair p q)) := by
  intro a b ha hb
  constructor
  · intro hab
    refine of_le ?_ hab
    rintro a b (hab | ⟨rfl, rfl⟩)
    case inl => exact left (h.forces_of (.rel _ _ hab))
    case inr => exact .trans _ _ _ (left (.symm _ _ (h.glue p hp))) of_pair
  · intro hab
    have hmap := Closure.map (B := Either (g'.Relates s) (Pair (p.map φ) q)) (Slot.map φ) ?_ hab
    case refine_1 =>
      rintro a b (hab | ⟨rfl, rfl⟩)
      case inl => exact left (h.forces_map (.rel _ _ hab))
      case inr => exact (h.map_eq hq).symm ▸ of_pair
    rwa [h.map_eq ha, h.map_eq hb] at hmap

end Folding

end QueryGraph

end Subplans
