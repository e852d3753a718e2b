import Subplans.Proofs.Graph.WellFormed

/-!
Graphs that come about by changes, starting from the one without nodes.

A change may name nodes that are there and an alias that no node has (`Change.Allowed`). Then it keeps the parts of
the graph in step (`WellFormed.apply`), and so every graph that is reached is well-formed and lists its nodes and
edges exactly once (`reached_consistent`).
-/

namespace Subplans.QueryGraph

variable {g : QueryGraph} {m n e old new : Nat} {o : Occurrence} {a b : String}

inductive Change
  | addFresh (o : Occurrence)
  | add (o : Occurrence) (aliasName : String)
  | addEdge (source key target : Nat)
  | removeEdge (e : Nat)
  | removeNode (n : Nat)
  | replaceNode (n : Nat) (o : Occurrence)
  | redirect (old new : Nat)
  | setAlias (n : Nat) (aliasName : String)

namespace Change

def apply (g : QueryGraph) : Change → QueryGraph
  | addFresh o => (g.addFresh o).2
  | add o a => (g.add o a).2
  | addEdge source key target => (g.addEdge source key target).2
  | removeEdge e => g.removeEdge e
  | removeNode n => g.removeNode n
  | replaceNode n o => g.replaceNode n o
  | redirect old new => g.redirect old new
  | setAlias n a => g.setAlias n a

-- The nodes are there, and no other node has the alias. An edge may be one that is removed already.
def Allowed (g : QueryGraph) : Change → Prop
  | addFresh _ | removeEdge _ => True
  | add _ a => ∀ m ∈ g.nodes, g.aliasName m ≠ a
  | addEdge source _ target => source ∈ g.nodes ∧ target ∈ g.nodes
  | removeNode n | replaceNode n _ => n ∈ g.nodes
  | redirect old new => old ∈ g.nodes ∧ new ∈ g.nodes
  | setAlias n a => n ∈ g.nodes ∧ ∀ m ∈ g.nodes, g.aliasName m = a → m = n

instance (g : QueryGraph) : (c : Change) → Decidable (c.Allowed g)
  | addFresh _ | removeEdge _ => inferInstanceAs (Decidable True)
  | add _ a => inferInstanceAs (Decidable (∀ m ∈ g.nodes, g.aliasName m ≠ a))
  | addEdge source _ target => inferInstanceAs (Decidable (source ∈ g.nodes ∧ target ∈ g.nodes))
  | removeNode n | replaceNode n _ => inferInstanceAs (Decidable (n ∈ g.nodes))
  | redirect old new => inferInstanceAs (Decidable (old ∈ g.nodes ∧ new ∈ g.nodes))
  | setAlias n a => inferInstanceAs (Decidable (n ∈ g.nodes ∧ ∀ m ∈ g.nodes, g.aliasName m = a → m = n))

end Change

inductive Reached : QueryGraph → Prop
  | empty : Reached empty
  | change {g : QueryGraph} (c : Change) : Reached g → c.Allowed g → Reached (c.apply g)

theorem slot?_replaceNode : (g.replaceNode n o).slot? m = (g.slot? m).map fun s =>
    if n = m then { s with occurrence := some o } else s := by
  simp only [replaceNode, slot?, List.getElem?_modify]
  cases g.slots[m]?
  case none => rfl
  case some s => by_cases hn : n = m <;> simp [hn]

theorem aliasName_replaceNode : (g.replaceNode n o).aliasName m = g.aliasName m :=
  aliasName_of_slot? slot?_replaceNode fun s => by split <;> rfl

theorem contains_replaceNode (hn : g.contains n = true) : (g.replaceNode n o).contains m = g.contains m := by
  have ⟨s, hs⟩ := exists_slot? (lt_of_contains hn)
  by_cases hm : n = m
  case pos =>
    subst hm
    rw [hn]
    simp [contains, node?, slot?_replaceNode, hs]
  case neg => simp [contains, node?, slot?_replaceNode, hm]

theorem outgoing_replaceNode : (g.replaceNode n o).outgoing m = g.outgoing m := by
  rw [outgoing_of_slot? slot?_replaceNode, outgoing]
  congr 2
  funext s
  split <;> rfl

theorem incoming_replaceNode : (g.replaceNode n o).incoming m = g.incoming m := by
  rw [incoming_of_slot? slot?_replaceNode, incoming]
  congr 2
  funext s
  split <;> rfl

theorem slot?_setAlias : (g.setAlias n a).slot? m = (g.slot? m).map fun s =>
    if n = m then { s with aliasName := a } else s := by
  simp only [setAlias, slot?, List.getElem?_modify]
  cases g.slots[m]?
  case none => rfl
  case some s => by_cases hn : n = m <;> simp [hn]

theorem aliasName_setAlias (hn : g.contains n = true) :
    (g.setAlias n a).aliasName m = if m = n then a else g.aliasName m := by
  have ⟨s, hs⟩ := exists_slot? (lt_of_contains hn)
  by_cases hm : n = m
  case pos =>
    subst hm
    simp [aliasName, slot?_setAlias, hs]
  case neg => simp [aliasName, slot?_setAlias, hm, Ne.symm hm]

theorem contains_setAlias : (g.setAlias n a).contains m = g.contains m := by
  rw [contains, contains, node?_of_slot? slot?_setAlias fun s => by split <;> rfl]

theorem outgoing_setAlias : (g.setAlias n a).outgoing m = g.outgoing m := by
  rw [outgoing_of_slot? slot?_setAlias, outgoing]
  congr 2
  funext s
  split <;> rfl

theorem incoming_setAlias : (g.setAlias n a).incoming m = g.incoming m := by
  rw [incoming_of_slot? slot?_setAlias, incoming]
  congr 2
  funext s
  split <;> rfl

namespace WellFormed

protected theorem replaceNode (hg : g.WellFormed) (hn : g.contains n = true) : (g.replaceNode n o).WellFormed where
  mem_nodes m := by
    rw [contains_replaceNode hn]
    exact hg.mem_nodes m
  nodup_nodes := hg.nodup_nodes
  source_mem e x he := by
    rw [contains_replaceNode hn, contains_replaceNode hn]
    exact hg.source_mem e x he
  count_outgoing m e := by
    rw [outgoing_replaceNode]
    exact hg.count_outgoing m e
  count_incoming m e := by
    rw [incoming_replaceNode]
    exact hg.count_incoming m e
  byAlias b m := by
    rw [contains_replaceNode hn, aliasName_replaceNode]
    exact hg.byAlias b m
  nodup_aliasIndex := hg.nodup_aliasIndex

theorem byAlias?_setAlias (hg : g.WellFormed) : (g.setAlias n a).byAlias? b = some m ↔
    if b = a then n = m else g.byAlias? b = some m ∧ (g.aliasName n ≠ b ∨ m ≠ n) := by
  have hindex : (g.setAlias n a).byAlias? b =
      if b = a then some n else (dropAlias (g.aliasName n) n g.aliasIndex).lookup b := lookup_indexAlias
  rw [hindex]
  split
  case isTrue => exact Option.some_inj
  case isFalse =>
    rw [dropAlias, lookup_filter_of_nodup hg.nodup_aliasIndex]
    refine and_congr .rfl ?_
    by_cases hb : b = g.aliasName n
    case pos => simp [hb]
    case neg => simp [hb, Ne.symm hb]

protected theorem setAlias (hg : g.WellFormed) (hn : g.contains n = true)
    (ha : ∀ m, g.contains m = true → g.aliasName m = a → m = n) : (g.setAlias n a).WellFormed where
  mem_nodes m := by
    rw [contains_setAlias]
    exact hg.mem_nodes m
  nodup_nodes := hg.nodup_nodes
  source_mem e x he := by
    rw [contains_setAlias, contains_setAlias]
    exact hg.source_mem e x he
  count_outgoing m e := by
    rw [outgoing_setAlias]
    exact hg.count_outgoing m e
  count_incoming m e := by
    rw [incoming_setAlias]
    exact hg.count_incoming m e
  byAlias b m := by
    rw [hg.byAlias?_setAlias, contains_setAlias, aliasName_setAlias hn, hg.byAlias]
    by_cases hm : m = n
    case pos =>
      subst hm
      by_cases hb : b = a
      case pos => simp [hb, hn]
      case neg => simp [hb, Ne.symm hb]
    case neg =>
      by_cases hb : b = a
      case pos =>
        -- No other node has the alias.
        have hother : ¬(g.contains m = true ∧ g.aliasName m = a) := fun h => hm (ha m h.1 h.2)
        simp [hb, hm, Ne.symm hm, hother]
      case neg => simp [hb, hm]
  nodup_aliasIndex := nodup_indexAlias ((List.filter_sublist.map _).nodup hg.nodup_aliasIndex)

-- The edges of a node are moved to the node itself.
theorem redirect_self (hg : g.WellFormed) (hn : g.contains n = true) : (g.redirect n n).WellFormed := by
  have hlt := lt_of_contains hn
  have hlt' : n < (g.redirectOutgoing n n).slots.length := sameNodes_redirectOutgoing.length.symm ▸ hlt
  have hedge : ∀ e, (g.redirectOutgoing n n).edge? e = g.edge? e := by
    intro e
    simp [hg.wired.edge?_redirectOutgoing]
  have hin : ∀ m, (g.redirectOutgoing n n).incoming m = g.incoming m := fun m => incoming_redirectOutgoing
  have hedge' : ∀ e, (g.redirect n n).edge? e = g.edge? e := by
    intro e
    rw [redirect, edge?_redirectIncoming, hin, hedge]
    split
    case isTrue he =>
      obtain ⟨x, hx, ht⟩ := (hg.wired.mem_incoming n e).mp he
      simp [hx, ← ht]
    case isFalse => rfl
  apply hg.of_sameNodes sameNodes_redirect
  case hends =>
    intro e x he
    exact hg.source_mem e x (hedge' e ▸ he)
  case hout =>
    intro m e
    rw [hedge', ← hg.count_outgoing, redirect, outgoing_redirectIncoming, outgoing_redirectOutgoing hlt,
      hg.wired.filter_outgoing]
    by_cases hm : n = m <;> simp [hm]
  case hin =>
    intro m e
    rw [hedge', ← hg.count_incoming, redirect, incoming_redirectIncoming hlt', hin, hin]
    simp only [hedge]
    rw [hg.wired.filter_incoming]
    by_cases hm : n = m <;> simp [hm]

theorem byAlias?_eq_none (hg : g.WellFormed) (ha : ∀ m ∈ g.nodes, g.aliasName m ≠ a) : g.byAlias? a = none := by
  rw [Option.eq_none_iff_forall_ne_some]
  intro m hm
  have ⟨hc, halias⟩ := (hg.byAlias a m).mp hm
  exact ha m ((hg.mem_nodes m).mpr hc) halias

protected theorem apply (hg : g.WellFormed) {c : Change} (hc : c.Allowed g) : (c.apply g).WellFormed := by
  have there : ∀ {n}, n ∈ g.nodes → g.contains n = true := fun h => (hg.mem_nodes _).mp h
  cases c
  case addFresh => exact hg.addFresh
  case add => exact hg.add (hg.byAlias?_eq_none hc)
  case addEdge => exact hg.addEdge (there hc.1) (there hc.2)
  case removeEdge => exact hg.removeEdge
  case removeNode => exact hg.removeNode
  case replaceNode => exact hg.replaceNode (there hc)
  case redirect old new =>
    by_cases hne : old = new
    case pos =>
      subst hne
      exact hg.redirect_self (there hc.1)
    case neg => exact hg.redirect hne (there hc.2)
  case setAlias => exact hg.setAlias (there hc.1) fun m hm => hc.2 m ((hg.mem_nodes m).mpr hm)

end WellFormed

theorem Reached.wellFormed (h : Reached g) : g.WellFormed := by
  induction h
  case empty => exact .empty
  case change hc ih => exact ih.apply hc

-- Exactly the edges that are there stand in the list, each once.
structure ListsEdges (g : QueryGraph) (es : List Nat) : Prop where
  nodup   : es.Nodup
  mem_iff : ∀ e, e ∈ es ↔ (g.edge? e).isSome

theorem listsEdges_edgeIds : g.ListsEdges g.edgeIds :=
  ⟨nodup_edgeIds, fun _ => mem_edgeIds⟩

theorem WellFormed.nodup_outgoing (hg : g.WellFormed) : (g.outgoing n).Nodup := by
  rw [List.nodup_iff_count_le_one]
  intro e
  rw [hg.count_outgoing]
  split <;> simp

theorem WellFormed.listsEdges_edgesBySource (hg : g.WellFormed) : g.ListsEdges g.edgesBySource where
  nodup := by
    rw [edgesBySource, List.nodup_flatMap]
    refine ⟨fun n _ => hg.nodup_outgoing, hg.nodup_nodes.imp fun {m n} hne e hm hn => ?_⟩
    -- An edge has one source.
    have ⟨x, hx, hxm⟩ := (hg.wired.mem_outgoing m e).mp hm
    have ⟨y, hy, hyn⟩ := (hg.wired.mem_outgoing n e).mp hn
    cases hx.symm.trans hy
    exact hne (hxm.symm.trans hyn)
  mem_iff e := by
    simp only [edgesBySource, List.mem_flatMap, hg.wired.mem_outgoing]
    constructor
    · rintro ⟨_, _, x, hx, _⟩
      simp [hx]
    · intro h
      have ⟨x, hx⟩ := Option.isSome_iff_exists.mp h
      exact ⟨x.source, (hg.mem_nodes _).mpr (hg.source_mem e x hx).1, x, hx, rfl⟩

-- The parts of a graph fit together, and what is looked up in it is complete and without repetitions.
structure Consistent (g : QueryGraph) : Prop where
  wellFormed    : g.WellFormed
  alias_inj     : ∀ m n, g.contains m → g.contains n → g.aliasName m = g.aliasName n → m = n
  -- The alias that is handed out next is free, whatever aliases were chosen.
  alias_free    : ∀ n, g.contains n → g.aliasName n ≠ numbered g.nextAlias
  edgeIds       : g.ListsEdges g.edgeIds
  edgesBySource : g.ListsEdges g.edgesBySource

theorem WellFormed.consistent (hg : g.WellFormed) : g.Consistent where
  wellFormed := hg
  alias_inj _ _ := hg.aliasName_inj
  alias_free n hn halias := by
    have hnone := byAlias?_nextAlias (g := g)
    rw [← halias, (hg.byAlias _ n).mpr ⟨hn, rfl⟩] at hnone
    cases hnone
  edgeIds := listsEdges_edgeIds
  edgesBySource := hg.listsEdges_edgesBySource

-- The nodes have their places and their aliases.
structure KeepsPlaces (g g' : QueryGraph) : Prop where
  nodes     : g'.nodes = g.nodes
  aliasName : ∀ n, g'.aliasName n = g.aliasName n

-- Whatever changes have led to a graph, its parts fit together. A node that is exchanged and one whose edges are
-- moved keep their places and aliases, and so do the others.
theorem reached_consistent (h : Reached g) : g.Consistent ∧ (∀ n o, KeepsPlaces g (g.replaceNode n o)) ∧
    ∀ old new, KeepsPlaces g (g.redirect old new) :=
  ⟨h.wellFormed.consistent, fun _ _ => ⟨rfl, fun _ => aliasName_replaceNode⟩,
    fun _ _ => ⟨sameNodes_redirect.nodes, sameNodes_redirect.aliasName⟩⟩

def anyRow : Occurrence where
  table := 0
  cardinality := 1
  clauses := []
  isVirtual := false

-- The alias that would be handed out first is taken. A node refers to itself, and its edges are moved to itself and
-- then to another node, before it is removed.
def loops : List Change := [.add anyRow "n1", .addFresh anyRow, .addEdge 0 0 0, .addEdge 0 1 1, .redirect 0 0,
  .redirect 0 1, .removeEdge 1, .removeEdge 1, .removeNode 0, .setAlias 1 "n1", .addFresh anyRow, .replaceNode 2 anyRow]

theorem reached_loops : Reached (loops.foldl Change.apply .empty) := by
  have hall : ∀ k : Fin 12, (loops[k]).Allowed ((loops.take k).foldl Change.apply .empty) := by decide +kernel
  have hreached : ∀ k : Nat, k ≤ 12 → Reached ((loops.take k).foldl Change.apply .empty) := by
    intro k hk
    induction k
    case zero => exact .empty
    case succ k ih =>
      have hstep := Reached.change _ (ih (by omega)) (hall ⟨k, by omega⟩)
      rw [List.take_add_one, List.foldl_append]
      rwa [List.getElem?_eq_getElem (show k < loops.length from hk)]
  exact hreached 12 (Nat.le_refl 12)

theorem reached_consistent_loops : Reached (loops.foldl Change.apply .empty) ∧
    (loops.foldl Change.apply .empty).edgesBySource = [0] ∧
    (loops.foldl Change.apply .empty).nodes.map (loops.foldl Change.apply .empty).aliasName = ["n1", "n3"] ∧
    (loops.foldl Change.apply .empty).Consistent :=
  ⟨reached_loops, by decide +kernel, by decide +kernel, (reached_consistent reached_loops).1⟩

end Subplans.QueryGraph
