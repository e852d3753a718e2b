import Subplans.Proofs.Graph.Views

/-!
The edges of a graph and the lists of edges that its nodes have say the same.

This holds whatever the ends of edges are, also those that were removed or that coincide, and every change of
edges keeps it as long as the places that it names exist.
-/

namespace Subplans.QueryGraph

variable {g : QueryGraph} {n source key target e old new : Nat} {o : Occurrence} {x : Edge} {a : String}

structure Wired (g : QueryGraph) : Prop where
  source_lt    : ∀ e x, g.edge? e = some x → x.source < g.slots.length
  target_lt    : ∀ e x, g.edge? e = some x → x.target < g.slots.length
  mem_outgoing : ∀ n e, e ∈ g.outgoing n ↔ ∃ x, g.edge? e = some x ∧ x.source = n
  mem_incoming : ∀ n e, e ∈ g.incoming n ↔ ∃ x, g.edge? e = some x ∧ x.target = n

namespace Wired

theorem mem_incident (hg : g.Wired) :
    e ∈ g.incident n ↔ ∃ x, g.edge? e = some x ∧ (x.source = n ∨ x.target = n) := by
  simp only [incident, List.mem_append, hg.mem_outgoing, hg.mem_incoming, and_or_left, exists_or]

protected theorem add (hg : g.Wired) : (g.add o a).2.Wired where
  source_lt e x he := length_add ▸ Nat.lt_succ_of_lt (hg.source_lt e x he)
  target_lt e x he := length_add ▸ Nat.lt_succ_of_lt (hg.target_lt e x he)
  mem_outgoing n e := by rw [outgoing_add, edge?_add, hg.mem_outgoing]
  mem_incoming n e := by rw [incoming_add, edge?_add, hg.mem_incoming]

protected theorem addFresh (hg : g.Wired) : (g.addFresh o).2.Wired :=
  Wired.add (g := { g with lastAlias := g.nextAlias })
    ⟨hg.source_lt, hg.target_lt, hg.mem_outgoing, hg.mem_incoming⟩

protected theorem addEdge (hg : g.Wired) (hs : source < g.slots.length) (ht : target < g.slots.length) :
    (g.addEdge source key target).2.Wired where
  source_lt e x he := by
    rw [edge?_addEdge] at he
    rw [sameNodes_addEdge.length]
    split at he
    case isTrue =>
      cases he
      exact hs
    case isFalse => exact hg.source_lt e x he
  target_lt e x he := by
    rw [edge?_addEdge] at he
    rw [sameNodes_addEdge.length]
    split at he
    case isTrue =>
      cases he
      exact ht
    case isFalse => exact hg.target_lt e x he
  mem_outgoing n e := by
    rw [outgoing_addEdge hs, edge?_addEdge, List.mem_append, hg.mem_outgoing]
    by_cases he : e = g.edges.length
    case pos => by_cases hn : source = n <;> simp [he, hn, edge?_length]
    case neg => by_cases hn : source = n <;> simp [he, hn]
  mem_incoming n e := by
    rw [incoming_addEdge ht, edge?_addEdge, List.mem_append, hg.mem_incoming]
    by_cases he : e = g.edges.length
    case pos => by_cases hn : target = n <;> simp [he, hn, edge?_length]
    case neg => by_cases hn : target = n <;> simp [he, hn]

protected theorem removeEdge (hg : g.Wired) : (g.removeEdge e).Wired := by
  cases h : g.edge? e
  case none =>
    rw [removeEdge_of_none h]
    exact hg
  case some x =>
    have kept : ∀ e' y, (g.removeEdge e).edge? e' = some y → g.edge? e' = some y := by
      intro e' y hy
      rw [edge?_removeEdge] at hy
      split at hy
      case isTrue => cases hy
      case isFalse => exact hy
    constructor
    case source_lt =>
      intro e' y hy
      rw [sameNodes_removeEdge.length]
      exact hg.source_lt e' y (kept e' y hy)
    case target_lt =>
      intro e' y hy
      rw [sameNodes_removeEdge.length]
      exact hg.target_lt e' y (kept e' y hy)
    case mem_outgoing =>
      intro n e'
      have hmem := hg.mem_outgoing n e'
      rw [outgoing_removeEdge h, edge?_removeEdge]
      by_cases he : e' = e <;> by_cases hn : x.source = n <;> simp_all
    case mem_incoming =>
      intro n e'
      have hmem := hg.mem_incoming n e'
      rw [incoming_removeEdge h, edge?_removeEdge]
      by_cases he : e' = e <;> by_cases hn : x.target = n <;> simp_all

protected theorem removeEdges (hg : g.Wired) (es : List Nat) : (es.foldl removeEdge g).Wired := by
  induction es generalizing g
  case nil => exact hg
  case cons ih => exact ih hg.removeEdge

theorem edge?_redirectOutgoing (hg : g.Wired) : (g.redirectOutgoing old new).edge? e =
    (g.edge? e).map fun x => { x with source := rename old new x.source } := by
  rw [QueryGraph.edge?_redirectOutgoing, if_congr (hg.mem_outgoing old e) rfl rfl]
  cases g.edge? e
  case none => simp
  case some x => by_cases hx : x.source = old <;> simp [hx, rename]

theorem edge?_redirectIncoming (hg : g.Wired) : (g.redirectIncoming old new).edge? e =
    (g.edge? e).map fun x => { x with target := rename old new x.target } := by
  rw [QueryGraph.edge?_redirectIncoming, if_congr (hg.mem_incoming old e) rfl rfl]
  cases g.edge? e
  case none => simp
  case some x => by_cases hx : x.target = old <;> simp [hx, rename]

theorem filter_outgoing (hg : g.Wired) : (g.outgoing n).filter (fun e => (g.edge? e).isSome) = g.outgoing n := by
  rw [List.filter_eq_self]
  intro e he
  have ⟨x, hx, _⟩ := (hg.mem_outgoing n e).mp he
  simp [hx]

theorem filter_incoming (hg : g.Wired) : (g.incoming n).filter (fun e => (g.edge? e).isSome) = g.incoming n := by
  rw [List.filter_eq_self]
  intro e he
  have ⟨x, hx, _⟩ := (hg.mem_incoming n e).mp he
  simp [hx]

theorem rename_lt (hnew : new < g.slots.length) (hn : n < g.slots.length) :
    rename old new n < g.slots.length := by
  unfold rename
  split
  case isTrue => exact hnew
  case isFalse => exact hn

protected theorem redirectOutgoing (hg : g.Wired) (hne : old ≠ new) (hnew : new < g.slots.length) :
    (g.redirectOutgoing old new).Wired where
  source_lt e x he := by
    rw [hg.edge?_redirectOutgoing] at he
    obtain ⟨y, hy, rfl⟩ := Option.map_eq_some_iff.mp he
    rw [sameNodes_redirectOutgoing.length]
    exact rename_lt hnew (hg.source_lt e y hy)
  target_lt e x he := by
    rw [hg.edge?_redirectOutgoing] at he
    obtain ⟨y, hy, rfl⟩ := Option.map_eq_some_iff.mp he
    rw [sameNodes_redirectOutgoing.length]
    exact hg.target_lt e y hy
  mem_outgoing n e := by
    have ho := hg.mem_outgoing old e
    have hn := hg.mem_outgoing n e
    rw [outgoing_redirectOutgoing hnew, hg.edge?_redirectOutgoing, hg.filter_outgoing]
    cases h : g.edge? e
    all_goals grind [rename]
  mem_incoming n e := by
    rw [incoming_redirectOutgoing, hg.edge?_redirectOutgoing, hg.mem_incoming]
    cases g.edge? e <;> simp

protected theorem redirectIncoming (hg : g.Wired) (hne : old ≠ new) (hnew : new < g.slots.length) :
    (g.redirectIncoming old new).Wired where
  source_lt e x he := by
    rw [hg.edge?_redirectIncoming] at he
    obtain ⟨y, hy, rfl⟩ := Option.map_eq_some_iff.mp he
    rw [sameNodes_redirectIncoming.length]
    exact hg.source_lt e y hy
  target_lt e x he := by
    rw [hg.edge?_redirectIncoming] at he
    obtain ⟨y, hy, rfl⟩ := Option.map_eq_some_iff.mp he
    rw [sameNodes_redirectIncoming.length]
    exact rename_lt hnew (hg.target_lt e y hy)
  mem_outgoing n e := by
    rw [outgoing_redirectIncoming, hg.edge?_redirectIncoming, hg.mem_outgoing]
    cases g.edge? e <;> simp
  mem_incoming n e := by
    have ho := hg.mem_incoming old e
    have hn := hg.mem_incoming n e
    rw [incoming_redirectIncoming hnew, hg.edge?_redirectIncoming, hg.filter_incoming]
    cases h : g.edge? e
    all_goals grind [rename]

theorem edge?_redirect (hg : g.Wired) (hne : old ≠ new) (hnew : new < g.slots.length) :
    (g.redirect old new).edge? e = (g.edge? e).map (Edge.map (rename old new)) := by
  rw [redirect, (hg.redirectOutgoing hne hnew).edge?_redirectIncoming, hg.edge?_redirectOutgoing, Option.map_map]
  rfl

protected theorem redirect (hg : g.Wired) (hne : old ≠ new) (hnew : new < g.slots.length) :
    (g.redirect old new).Wired :=
  (hg.redirectOutgoing hne hnew).redirectIncoming hne (sameNodes_redirectOutgoing.length.symm ▸ hnew)

protected theorem removeNode (hg : g.Wired) : (g.removeNode n).Wired := by
  have hstrip : (g.strip n).Wired := hg.removeEdges _
  have hedge : ∀ e, (g.removeNode n).edge? e = (g.strip n).edge? e := by
    intro e
    rw [edge?_removeNode, edge?_strip]
  constructor
  case source_lt =>
    intro e x he
    rw [length_removeNode, ← sameNodes_strip.length]
    exact hstrip.source_lt e x (hedge e ▸ he)
  case target_lt =>
    intro e x he
    rw [length_removeNode, ← sameNodes_strip.length]
    exact hstrip.target_lt e x (hedge e ▸ he)
  case mem_outgoing =>
    intro m e
    rw [outgoing_removeNode, hedge, hstrip.mem_outgoing]
  case mem_incoming =>
    intro m e
    rw [incoming_removeNode, hedge, hstrip.mem_incoming]

end Wired

end Subplans.QueryGraph
