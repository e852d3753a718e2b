import Mathlib.Data.List.Basic
import Subplans.Proofs.Graph.Views
import Subplans.Query.Traversal

/-!
Graphs that differ in the numbers of their nodes and edges.

Such graphs are traversed alike (`Renaming.traverse`), as long as nodes and edges are listed in the same order in both.
-/

namespace Subplans.QueryGraph

variable {φ ψ : Nat → Nat} {g g' : QueryGraph} {n e : Nat} {listed stack starts : List Nat}

-- Nodes have other numbers in the second graph, given by `φ`, and edges, given by `ψ`. The numbers that are not in use
-- are in use in neither graph.
structure Renaming (φ ψ : Nat → Nat) (g g' : QueryGraph) : Prop where
  inj       : Function.Injective φ
  nodes     : g'.nodes = g.nodes.map φ
  lt_length : ∀ n, φ n < g'.slots.length ↔ n < g.slots.length
  outgoing  : ∀ n, g'.outgoing (φ n) = (g.outgoing n).map ψ
  incoming  : ∀ n, g'.incoming (φ n) = (g.incoming n).map ψ
  edge?     : ∀ e, g'.edge? (ψ e) = (g.edge? e).map (Edge.map φ)
  isVirtual : ∀ n, g'.isVirtual (φ n) = g.isVirtual n

-- A node with its edges to nodes before it, by their other numbers.
def renameVisit (φ ψ : Nat → Nat) (v : Nat × List Nat) : Nat × List Nat :=
  (φ v.1, v.2.map ψ)

namespace Renaming

theorem contains_map (h : Renaming φ ψ g g') : (listed.map φ).contains (φ n) = listed.contains n := by
  rw [Bool.eq_iff_iff, List.contains_iff_mem, List.contains_iff_mem, List.mem_map_of_injective h.inj]

theorem neighbors (h : Renaming φ ψ g g') : g'.neighbors (φ n) = (g.neighbors n).map φ := by
  have hends : ∀ (f : Edge → Nat), (∀ x, f (x.map φ) = φ (f x)) → ∀ es : List Nat,
      (es.map ψ).filterMap (fun e => (g'.edge? e).map f) = (es.filterMap fun e => (g.edge? e).map f).map φ := by
    intro f hf es
    rw [List.filterMap_map, List.map_filterMap]
    refine List.filterMap_congr fun e _ => ?_
    simp [h.edge?, hf, Function.comp_def]
  simp only [QueryGraph.neighbors, h.outgoing, h.incoming, List.map_append]
  rw [hends Edge.target fun _ => rfl, hends Edge.source fun _ => rfl]

theorem edgesTo (h : Renaming φ ψ g g') :
    g'.edgesTo (listed.map φ) (φ n) = (g.edgesTo listed n).map ψ := by
  simp only [QueryGraph.edgesTo, incident, h.outgoing, h.incoming, ← List.map_append, List.filter_map]
  refine congrArg _ (List.filter_congr fun e _ => ?_)
  simp only [h.edge?, Option.any_map, Function.comp_def, Edge.map, h.contains_map]

theorem walk (h : Renaming φ ψ g g') : g'.walk (listed.map φ) (stack.map φ) =
    ((g.walk listed stack).1.map (renameVisit φ ψ), (g.walk listed stack).2.map φ) := by
  fun_induction QueryGraph.walk g listed stack
  case case1 listed => simp [QueryGraph.walk]
  case case2 listed next rest hnext _ visits listed' heq ih =>
    have hnext' : φ next < g'.slots.length ∧ φ next ∉ listed.map φ := by
      rwa [h.lt_length, List.mem_map_of_injective h.inj]
    rw [heq] at ih
    have hwalk : g'.walk (φ next :: listed.map φ) ((g'.neighbors (φ next)).reverse ++ rest.map φ) =
        (visits.map (renameVisit φ ψ), listed'.map φ) := by
      rwa [h.neighbors, ← List.map_reverse, ← List.map_append]
    rw [List.map_cons, QueryGraph.walk, dif_pos hnext']
    simp [hwalk, renameVisit, h.edgesTo]
  case case3 listed next rest hnext ih =>
    have hnext' : ¬(φ next < g'.slots.length ∧ φ next ∉ listed.map φ) := by
      rwa [h.lt_length, List.mem_map_of_injective h.inj]
    rw [List.map_cons, QueryGraph.walk, dif_neg hnext', ih]

theorem walkFrom (h : Renaming φ ψ g g') :
    g'.walkFrom (listed.map φ) (starts.map φ) = (g.walkFrom listed starts).map (renameVisit φ ψ) := by
  induction starts generalizing listed
  case nil => rfl
  case cons start rest ih =>
    simp only [List.map_cons, QueryGraph.walkFrom, h.contains_map]
    split
    case isTrue => exact ih
    case isFalse =>
      rw [h.neighbors, ← List.map_reverse, ← List.map_cons, h.walk]
      simp [renameVisit, ih]

theorem traverse (h : Renaming φ ψ g g') : g'.traverse = g.traverse.map (renameVisit φ ψ) := by
  have hwalk : g'.walkFrom ([].map φ) (g.nodes.map φ) = (g.walkFrom [] g.nodes).map (renameVisit φ ψ) := h.walkFrom
  rwa [← h.nodes] at hwalk

theorem visitOrder (h : Renaming φ ψ g g') : g'.visitOrder = g.visitOrder.map φ := by
  simp [QueryGraph.visitOrder, h.traverse, renameVisit]

end Renaming

end Subplans.QueryGraph
