import Subplans.Query.Sql

/-!
Sub-queries, and the factors of a query.

A sub-query keeps some nodes of a query and the edges between them. Where several of the kept nodes refer
to the same columns of a node that is left out, a virtual node takes its place, so that they stay equal.
-/

namespace Subplans.QueryGraph

-- A node that is left out, the columns of it that are referred to, and the edges that do so as pairs of a kept node and
-- a foreign key.
structure Shared where
  node : Nat
  columns : List ColumnRef
  references : List (Nat × Nat)

-- The different columns of a list, in order.
def columnSet (columns : List ColumnRef) : List ColumnRef :=
  columns.foldl (fun set c => Links.merge set [c]) []

def share (node : Nat) (columns : List ColumnRef) (reference : Nat × Nat) : List Shared → List Shared
  | [] => [⟨node, columns, [reference]⟩]
  | s :: rest =>
    if s.node == node && s.columns == columns then { s with references := s.references ++ [reference] } :: rest
    else s :: share node columns reference rest

-- The edges from a kept node: those to kept nodes, and references to nodes that are left out.
def splitEdge (g : QueryGraph) (s : Schema) (kept : List Nat) (acc : List Edge × List Shared) (e : Nat) :
    List Edge × List Shared :=
  match g.edge? e with
  | none => acc
  | some edge =>
    if kept.contains edge.target then (acc.1 ++ [edge], acc.2)
    else
      let columns := columnSet ((s.key edge.key).pairs.map Prod.snd)
      (acc.1, share edge.target columns (edge.source, edge.key) acc.2)

def subquery (g : QueryGraph) (s : Schema) (selected : List Nat) : QueryGraph :=
  let kept := g.nodes.filter selected.contains
  let place := fun n => kept.idxOf n
  let sub := kept.foldl (fun sub n => (sub.add (g.node n) (g.aliasName n)).2) empty
  let (edges, shared) := (kept.flatMap g.outgoing).foldl (splitEdge g s kept) ([], [])
  let edges := edges.map fun e => (⟨place e.source, e.key, place e.target⟩ : Edge)
  let (sub, edges) := (shared.filter (1 < ·.references.length)).foldl (fun (sub, edges) h =>
    let (n, sub) := sub.addFresh (.virtual s (g.node h.node).table)
    (sub, edges ++ h.references.map fun (source, key) => (⟨place source, key, n⟩ : Edge))) (sub, edges)
  edges.foldl (fun sub e => (sub.addEdge e.source e.key e.target).2) sub

def hasCrossProduct (g : QueryGraph) : Bool :=
  g.edgeIds.length < g.nodes.length - 1

-- The visits of a traversal by components: one starts with every visit without edges.
def components : List (Nat × List Nat) → List (List Nat)
  | [] => []
  | (n, _) :: rest =>
    match rest, components rest with
    | (_, _ :: _) :: _, c :: cs => (n :: c) :: cs
    | _, cs => [n] :: cs

-- The sub-queries over the connected components that do not consist of virtual nodes alone.
def factors (g : QueryGraph) (s : Schema) : List QueryGraph :=
  let parts := (components g.traverse).map (·.filter (!g.isVirtual ·))
  (parts.filter (!·.isEmpty)).map (g.subquery s)

end Subplans.QueryGraph
