import Subplans.Proofs.Repository.RoundTrip

/-!
Records of graphs that were loaded.

What is loaded from a record has the same record (`toGraph_ofGraph_record`), although its predicates are texts by now,
its virtual nodes are made anew from the schema, and its edges are numbered in another order: it is a copy of what was
saved, and copies with the same estimates have the same record (`Copy.ofGraph`).
-/

namespace Subplans

variable {s : Schema} {g g' : QueryGraph} {φ ψ : Nat → Nat} {i n id : Nat} {x : Edge}

namespace QueryGraph

theorem Copy.ofNode (h : Copy s φ ψ g g') (hestimate : (g'.node (φ n)).cardinality = (g.node n).cardinality) :
    NodeRecord.ofNode s g' (φ n) = NodeRecord.ofNode s g n := by
  have htexts := h.texts n
  rw [Clauses.texts, Clauses.texts] at htexts
  simp only [NodeRecord.ofNode, ← isVirtual_eq, h.aliasName, h.tableName, h.isVirtual, hestimate, htexts]

theorem Copy.ofEdge (h : Copy s φ ψ g g') : EdgeRecord.ofEdge s g' (x.map φ) = EdgeRecord.ofEdge s g x := by
  simp only [EdgeRecord.ofEdge, Edge.map, h.aliasName]

theorem Renaming.edgesInOrder (h : Renaming φ ψ g g') :
    g'.edgesBySource.filterMap g'.edge? = (g.edgesBySource.filterMap g.edge?).map (Edge.map φ) := by
  rw [h.edgesBySource, List.filterMap_map, List.map_filterMap]
  exact List.filterMap_congr fun e _ => h.edge? e

theorem Copy.ofGraph (h : Copy s φ ψ g g')
    (hestimates : ∀ n ∈ g.nodes, (g'.node (φ n)).cardinality = (g.node n).cardinality) (id : Nat) :
    QueryRecord.ofGraph s id g' = QueryRecord.ofGraph s id g := by
  have hnodes : g'.nodes.map (NodeRecord.ofNode s g') = g.nodes.map (NodeRecord.ofNode s g) := by
    rw [h.nodes, List.map_map]
    exact List.map_congr_left fun n hn => h.ofNode (hestimates n hn)
  have hedges : (g'.edgesBySource.filterMap g'.edge?).map (EdgeRecord.ofEdge s g') =
      (g.edgesBySource.filterMap g.edge?).map (EdgeRecord.ofEdge s g) := by
    rw [h.edgesInOrder, List.map_map]
    exact List.map_congr_left fun x _ => h.ofEdge
  rw [QueryRecord.ofGraph, QueryRecord.ofGraph, hnodes, hedges]

-- The order in which edges reach a node is not recorded.
theorem ofGraph_bySource (s : Schema) (g : QueryGraph) (id : Nat) :
    QueryRecord.ofGraph s id g.bySource = QueryRecord.ofGraph s id g := by
  have hnode : NodeRecord.ofNode s g.bySource = NodeRecord.ofNode s g := by
    funext n
    simp only [NodeRecord.ofNode, node, node?_bySource, aliasName_bySource]
  have hedge : EdgeRecord.ofEdge s g.bySource = EdgeRecord.ofEdge s g := by
    funext x
    simp only [EdgeRecord.ofEdge, aliasName_bySource]
  rw [QueryRecord.ofGraph, hnode, hedge, edgesBySource_bySource]
  rfl

-- Tables and keys are those of the schema, and virtual nodes are as they are made for it.
structure MadeFor (s : Schema) (g : QueryGraph) : Prop where
  table   : ∀ n ∈ g.nodes, (g.node n).table < s.tables.length
  virtual : ∀ n ∈ g.nodes, (g.node n).isVirtual = true → g.node n = .virtual s (g.node n).table
  key     : ∀ e x, g.edge? e = some x → x.key < s.keys.length

theorem MadeFor.fitsSchema (h : g.MadeFor s) : g.FitsSchema s where
  table   := h.table
  virtual := fun n hn hv => by rw [h.virtual n hn hv, Occurrence.virtual]
  key     := h.key

end QueryGraph

-- The recorded estimate of a virtual node is not read. That of the table takes its place.
theorem NodeRecord.cardinality_restored (htables : (s.tables.map Table.name).Nodup) (hg : g.MadeFor s)
    (hn : n ∈ g.nodes) : (restored s g n).cardinality = (g.node n).cardinality := by
  have ht : s.table? (ofNode s g n).table = some (g.node n).table := Schema.table?_name_eq htables (hg.table n hn)
  cases hv : (g.node n).isVirtual
  case true =>
    have hread : (ofNode s g n).occurrence s = .ok (.virtual s (g.node n).table) := by
      simp only [occurrence, ht, if_pos (show (ofNode s g n).isVirtual = true from hv)]
    rw [restored, hread, ← hg.virtual n hn hv]
    rfl
  case false =>
    have hnot : ¬(ofNode s g n).isVirtual = true := by simp [ofNode, hv]
    simp only [restored, occurrence, ht, if_neg hnot]
    rfl

namespace QueryGraph

theorem cardinality_bySource (htables : (s.tables.map Table.name).Nodup) (hwf : g.WellFormed) (hg : g.MadeFor s)
    (hi : i ∈ (g.restored s).nodes) : (g.bySource.node (entryAt g.nodes g.slots.length i)).cardinality =
      ((g.restored s).node i).cardinality := by
  rcases place_cases hwf s i with ⟨n, hn, hplace, hentry, -⟩ | ⟨hnone, -, -⟩
  case inl =>
    obtain ⟨hrestored, hnode⟩ := node_restored (s := s) hwf hn hplace
    rw [hentry, node, node, hrestored, hnode]
    exact (NodeRecord.cardinality_restored htables hg hn).symm
  case inr =>
    rw [restored, sameNodes_withEdges.nodes, nodes_placed, List.mem_range] at hi
    exact absurd hi (Nat.not_lt.mpr (List.getElem?_eq_none_iff.mp hnone))

-- Loading what was saved succeeds, and saves as the same record again.
theorem toGraph_ofGraph_record (s : Schema) (g : QueryGraph) (id : Nat) (htables : (s.tables.map Table.name).Nodup)
    (hkeys : (s.keys.map ForeignKey.name).Nodup) (hwf : g.WellFormed) (hg : g.MadeFor s) :
    ∃ g', (QueryRecord.ofGraph s id g).toGraph s = .ok g' ∧
      QueryRecord.ofGraph s id g' = QueryRecord.ofGraph s id g := by
  refine ⟨g.restored s, toGraph_ofGraph hkeys hwf hg.fitsSchema id, ?_⟩
  calc QueryRecord.ofGraph s id (g.restored s)
    _ = QueryRecord.ofGraph s id g.bySource :=
      ((copy_restored hwf hg.fitsSchema).ofGraph (fun _ => cardinality_bySource htables hwf hg) id).symm
    _ = QueryRecord.ofGraph s id g := ofGraph_bySource s g id

-- An information that is compared in two ways.
def comparedInfo : Occurrence where
  table := 2
  cardinality := 3
  clauses := [[
    .comparison { column := ⟨2, 0⟩, name := "film_id", dataType := .integer, comparison := .lt, value := .integer 7,
                  positive := false },
    .verbatim "y.film_id = 9" true]]
  isVirtual := false

-- A film only completes the joins of a link and of an information. The information was joined first.
def joinedByFilm : QueryGraph :=
  let g := (empty.add (.virtual filmSchema 0) "z").2
  let g := ((g.add { anyRow with table := 1 } "x").2.add comparedInfo "y").2
  ((g.addEdge 2 2 0).2.addEdge 1 0 0).2

theorem reached_joinedByFilm : Reached joinedByFilm :=
  .change (.addEdge 1 0 0) (.change (.addEdge 2 2 0) (.change (.add comparedInfo "y")
    (.change (.add { anyRow with table := 1 } "x") (.change (.add (.virtual filmSchema 0) "z") .empty (by decide))
      (by decide)) (by decide)) (by decide)) (by decide)

theorem madeFor_joinedByFilm : joinedByFilm.MadeFor filmSchema := by
  have hnodes : joinedByFilm.nodes = [0, 1, 2] := by decide
  have hedges : joinedByFilm.edges = [some ⟨2, 2, 0⟩, some ⟨1, 0, 0⟩] := by decide
  refine ⟨by decide +kernel, fun n hn hv => ?_, fun e x hx => ?_⟩
  case refine_1 =>
    have hn : n = 0 ∨ n = 1 ∨ n = 2 := by simpa [hnodes] using hn
    obtain rfl | rfl | rfl := hn
    · rfl
    · cases hv
    · cases hv
  case refine_2 =>
    have hmem := List.mem_of_getElem? (Option.join_eq_some_iff.mp hx)
    have hx : x = ⟨2, 2, 0⟩ ∨ x = ⟨1, 0, 0⟩ := by simpa [hedges] using hmem
    obtain rfl | rfl := hx <;> decide +kernel

-- Its record has the nodes in their order, with the texts of the predicates, and the edges in the order of the nodes
-- that they come from.
def recordJoinedByFilm : QueryRecord where
  id := 1
  nodes := [
    { aliasName := "z", table := "film", cardinality := 1, isVirtual := true, clauses := [] },
    { aliasName := "x", table := "link", cardinality := 1, isVirtual := false, clauses := [] },
    { aliasName := "y", table := "info", cardinality := 3, isVirtual := false,
      clauses := [["NOT y.film_id < 7", "y.film_id = 9"]] }]
  edges := [{ source := "x", key := "link_film", target := "z" }, { source := "y", key := "info_film", target := "z" }]

theorem ofGraph_joinedByFilm : QueryRecord.ofGraph filmSchema 1 joinedByFilm = recordJoinedByFilm := by
  rfl

theorem toGraph_ofGraph_record_joinedByFilm : (filmSchema.tables.map Table.name).Nodup ∧
    (filmSchema.keys.map ForeignKey.name).Nodup ∧ joinedByFilm.WellFormed ∧ joinedByFilm.MadeFor filmSchema ∧
    QueryRecord.ofGraph filmSchema 1 joinedByFilm = recordJoinedByFilm ∧
    ∃ g', (QueryRecord.ofGraph filmSchema 1 joinedByFilm).toGraph filmSchema = .ok g' ∧
      QueryRecord.ofGraph filmSchema 1 g' = recordJoinedByFilm := by
  have htables : (filmSchema.tables.map Table.name).Nodup := by decide +kernel
  have hkeys : (filmSchema.keys.map ForeignKey.name).Nodup := by decide +kernel
  have hwf := reached_joinedByFilm.wellFormed
  rw [← ofGraph_joinedByFilm]
  exact ⟨htables, hkeys, hwf, madeFor_joinedByFilm, rfl,
    toGraph_ofGraph_record filmSchema joinedByFilm 1 htables hkeys hwf madeFor_joinedByFilm⟩

end QueryGraph

end Subplans
