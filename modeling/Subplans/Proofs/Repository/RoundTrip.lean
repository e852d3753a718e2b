import Subplans.Proofs.Equalities.Printed
import Subplans.Proofs.Repository.Loading

/-!
The SQL of queries that are saved and loaded.

A record lists edges by the nodes that they come from. So the SQL stays the same if the edges to every node come in
this order (`toGraph_ofGraph_sql`), as they do in every graph that was loaded. If they come in another order, the
traversal may come to other nodes first, and the SQL lists the tables differently (`not_same_sql_infoFirst`).
-/

namespace Subplans.QueryGraph

variable {s : Schema} {g g' : QueryGraph} {φ ψ : Nat → Nat} {n : Nat}

-- The edges to a node come in the order of the nodes that they come from.
def OrderedBySource (g : QueryGraph) : Prop :=
  ∀ n ∈ g.nodes, g.incoming n = g.incomingBySource n

instance (g : QueryGraph) : Decidable g.OrderedBySource :=
  inferInstanceAs (Decidable (∀ n ∈ g.nodes, g.incoming n = g.incomingBySource n))

theorem mem_incomingBySource (hwf : g.WellFormed) {e : Nat} : e ∈ g.incomingBySource n ↔ e ∈ g.incoming n := by
  rw [incomingBySource, List.mem_filter, hwf.listsEdges_edgesBySource.mem_iff, hwf.wired.mem_incoming]
  cases g.edge? e <;> simp

theorem OrderedBySource.bySource_eq (h : g.OrderedBySource) (hwf : g.WellFormed) : g.bySource = g := by
  have hincoming : ∀ n, g.incoming n = g.incomingBySource n := by
    intro n
    by_cases hn : n ∈ g.nodes
    case pos => exact h n hn
    case neg =>
      -- No edges lead to a node that is removed.
      have hnone : ∀ e, e ∉ g.incoming n := by
        intro e he
        obtain ⟨x, hx, rfl⟩ := (hwf.wired.mem_incoming n e).mp he
        exact hn ((hwf.mem_nodes _).mpr (hwf.source_mem e x hx).2)
      rw [List.eq_nil_iff_forall_not_mem.mpr hnone]
      exact (List.eq_nil_iff_forall_not_mem.mpr fun e he => hnone e ((mem_incomingBySource hwf).mp he)).symm
  have hslots : g.slots.mapIdx (fun n slot => { slot with incoming := g.incomingBySource n }) = g.slots := by
    refine List.ext_getElem (by simp) fun n hn hn' => ?_
    have hslot : g.incoming n = g.slots[n].incoming := by simp [incoming, slot?, hn']
    simp [← hincoming, hslot]
  rw [bySource, hslots]

theorem Renaming.edgesBySource (h : Renaming φ ψ g g') : g'.edgesBySource = g.edgesBySource.map ψ := by
  simp [QueryGraph.edgesBySource, h.nodes, List.flatMap_map, h.outgoing, List.map_flatMap]

theorem edgesBySource_bySource : g.bySource.edgesBySource = g.edgesBySource :=
  List.flatMap_congr fun _ _ => outgoing_bySource

-- What is loaded has its edges numbered in the order in which they were saved.
theorem edgesBySource_restored (hwf : g.WellFormed) (hg : g.FitsSchema s) :
    (g.restored s).edgesBySource = List.range g.edgesBySource.length := by
  have hinj : Function.Injective (entryAt g.edgesBySource g.edges.length) := by
    refine injective_entryAt hwf.listsEdges_edgesBySource.nodup fun e he => ?_
    obtain ⟨x, hx⟩ := Option.isSome_iff_exists.mp ((hwf.listsEdges_edgesBySource.mem_iff e).mp he)
    exact lt_of_edge? hx
  have hmap : (g.restored s).edgesBySource.map (entryAt g.edgesBySource g.edges.length) = g.bySource.edgesBySource :=
    (copy_restored hwf hg).edgesBySource.symm
  refine List.map_injective_iff.mpr hinj ?_
  rw [hmap, edgesBySource_bySource, map_range_entryAt]

theorem orderedBySource_restored (hwf : g.WellFormed) (hg : g.FitsSchema s) : (g.restored s).OrderedBySource := by
  intro i _
  rw [incoming_restored hwf, incomingBySource, edgesBySource_restored hwf hg, placesOf, length_recordedEdges hwf]
  simp only [edge?_restored]

theorem toGraph_ofGraph_sql (s : Schema) (g : QueryGraph) (id : Nat) (hkeys : (s.keys.map ForeignKey.name).Nodup)
    (hg : Reached g) (hfits : g.FitsSchema s) :
    ∃ g', (QueryRecord.ofGraph s id g).toGraph s = .ok g' ∧ g'.OrderedBySource ∧
      (∀ count, g'.sql s count = g.bySource.sql s count) ∧
      (g.OrderedBySource → ∀ count, g'.sql s count = g.sql s count) := by
  have hwf := hg.wellFormed
  have hcopy := copy_restored hwf hfits
  refine ⟨g.restored s, toGraph_ofGraph hkeys hwf hfits id, orderedBySource_restored hwf hfits,
    fun count => (hcopy.sql count).symm, fun hordered count => ?_⟩
  rw [← hcopy.sql count, hordered.bySource_eq hwf]

-- A film, a link and an information.
def aroundFilm : QueryGraph :=
  (((empty.add anyRow "z").2.add { anyRow with table := 1 } "x").2.add { anyRow with table := 2 } "y").2

def linkFirst : QueryGraph :=
  ((aroundFilm.addEdge 1 0 0).2.addEdge 2 2 0).2

def infoFirst : QueryGraph :=
  ((aroundFilm.addEdge 2 2 0).2.addEdge 1 0 0).2

theorem reached_aroundFilm : Reached aroundFilm :=
  .change (.add { anyRow with table := 2 } "y") (.change (.add { anyRow with table := 1 } "x")
    (.change (.add anyRow "z") .empty (by decide)) (by decide)) (by decide)

theorem reached_linkFirst : Reached linkFirst :=
  .change (.addEdge 2 2 0) (.change (.addEdge 1 0 0) reached_aroundFilm (by decide)) (by decide)

theorem reached_infoFirst : Reached infoFirst :=
  .change (.addEdge 1 0 0) (.change (.addEdge 2 2 0) reached_aroundFilm (by decide)) (by decide)

theorem toGraph_ofGraph_sql_linkFirst : (filmSchema.keys.map ForeignKey.name).Nodup ∧ Reached linkFirst ∧
    linkFirst.FitsSchema filmSchema ∧ linkFirst.OrderedBySource ∧
    ∃ g', (QueryRecord.ofGraph filmSchema 1 linkFirst).toGraph filmSchema = .ok g' ∧
      ∀ count, g'.sql filmSchema count = linkFirst.sql filmSchema count := by
  have hkeys : (filmSchema.keys.map ForeignKey.name).Nodup := by decide +kernel
  have hfits : linkFirst.FitsSchema filmSchema := by decide +kernel
  have hordered : linkFirst.OrderedBySource := by decide
  obtain ⟨g', hg', -, -, hsql⟩ := toGraph_ofGraph_sql filmSchema linkFirst 1 hkeys reached_linkFirst hfits
  exact ⟨hkeys, reached_linkFirst, hfits, hordered, g', hg', hsql hordered⟩

-- The film stands first, and of the nodes that refer to it the last one stands next.
theorem traverse_infoFirst : infoFirst.traverse = [(0, []), (1, [1]), (2, [0])] := by
  have hnodes : infoFirst.nodes = [0, 1, 2] := by decide
  have hlength : infoFirst.slots.length = 3 := by decide
  have hneighbors : infoFirst.neighbors 0 = [2, 1] ∧ infoFirst.neighbors 1 = [0] ∧ infoFirst.neighbors 2 = [0] := by
    decide
  have hedges : infoFirst.edgesTo [0] 1 = [1] ∧ infoFirst.edgesTo [1, 0] 2 = [0] := by decide
  simp [traverse, walkFrom, walk, hnodes, hlength, hneighbors, hedges]

theorem traverse_restored_infoFirst : (infoFirst.restored filmSchema).traverse = [(0, []), (2, [1]), (1, [0])] := by
  have hnodes : (infoFirst.restored filmSchema).nodes = [0, 1, 2] := by decide
  have hlength : (infoFirst.restored filmSchema).slots.length = 3 := by decide
  have hneighbors : (infoFirst.restored filmSchema).neighbors 0 = [1, 2] ∧
      (infoFirst.restored filmSchema).neighbors 1 = [0] ∧ (infoFirst.restored filmSchema).neighbors 2 = [0] := by
    decide
  have hedges : (infoFirst.restored filmSchema).edgesTo [0] 2 = [1] ∧
      (infoFirst.restored filmSchema).edgesTo [2, 0] 1 = [0] := by decide
  simp [traverse, walkFrom, walk, hnodes, hlength, hneighbors, hedges]

-- The information was joined first, but the record lists the edge from the link first.
theorem not_same_sql_infoFirst : (filmSchema.keys.map ForeignKey.name).Nodup ∧ Reached infoFirst ∧
    infoFirst.FitsSchema filmSchema ∧ ∃ g', (QueryRecord.ofGraph filmSchema 1 infoFirst).toGraph filmSchema = .ok g' ∧
      infoFirst.sql filmSchema false =
        "SELECT *\nFROM film AS z\n\tJOIN link AS x ON x.film_id = z.id\n\tJOIN info AS y ON y.film_id = z.id;" ∧
      g'.sql filmSchema false =
        "SELECT *\nFROM film AS z\n\tJOIN info AS y ON y.film_id = z.id\n\tJOIN link AS x ON x.film_id = z.id;" := by
  have hkeys : (filmSchema.keys.map ForeignKey.name).Nodup := by decide +kernel
  have hfits : infoFirst.FitsSchema filmSchema := by decide +kernel
  refine ⟨hkeys, reached_infoFirst, hfits, _, toGraph_ofGraph hkeys reached_infoFirst.wellFormed hfits 1, ?_, ?_⟩
  · rw [sql, fromList, equalities, traverse_infoFirst]
    decide +kernel
  · rw [sql, fromList, equalities, traverse_restored_infoFirst]
    decide +kernel

end Subplans.QueryGraph
