import Subplans.Proofs.Equalities.Renaming
import Subplans.Proofs.Graph.Subquery
import Subplans.Proofs.Outcome
import Subplans.Repository.Record

/-!
The graph that is loaded from the record of a graph.

Its nodes are those of the graph in their order, and its edges are added in the order of the nodes that they come from.
So it is a copy of the graph except for the order in which edges reach a node: this becomes that of the nodes that the
edges come from (`copy_restored`).
-/

namespace Subplans

variable {s : Schema} {g h : QueryGraph} {ids kept : List Nat} {bound i k n m e t : Nat} {x : Edge}

-- What has a name that nothing else has is found by it.
theorem findIdx?_name {α : Type} {name : α → String} {as : List α} (hnodup : (as.map name).Nodup)
    (hi : i < as.length) : as.findIdx? (name · == name as[i]) = some i := by
  refine List.findIdx?_eq_some_iff_getElem.mpr ⟨hi, by simp, fun j hj hname => ?_⟩
  have hj' : j < (as.map name).length := by simpa using Nat.lt_trans hj hi
  have hi' : i < (as.map name).length := by simpa
  have hsame : (as.map name)[j] = (as.map name)[i] := by simpa using hname
  exact Nat.ne_of_lt hj (hnodup.getElem_inj_iff.mp hsame)

namespace Schema

theorem table?_name (ht : t < s.tables.length) :
    ∃ t', s.table? (s.table t).name = some t' ∧ (s.table t').name = (s.table t).name := by
  have hsome : (s.table? (s.table t).name).isSome := by
    rw [table?, List.findIdx?_isSome, List.any_eq_true]
    exact ⟨s.tables[t], List.getElem_mem ht, by simp [table, ht]⟩
  obtain ⟨t', ht'⟩ := Option.isSome_iff_exists.mp hsome
  obtain ⟨hlt, hname, -⟩ := List.findIdx?_eq_some_iff_getElem.mp ht'
  exact ⟨t', ht', by simpa [table, hlt] using hname⟩

-- A key is found by its name if no other has it.
theorem key?_name (hkeys : (s.keys.map ForeignKey.name).Nodup) (hk : k < s.keys.length) :
    s.key? (s.key k).name = some k := by
  simpa [key?, key, hk] using findIdx?_name hkeys hk

-- So is a table.
theorem table?_name_eq (htables : (s.tables.map Table.name).Nodup) (ht : t < s.tables.length) :
    s.table? (s.table t).name = some t := by
  simpa [table?, table, ht] using findIdx?_name htables ht

end Schema

-- The entry of a list, or behind its end a number from some bound on.
def entryAt (ids : List Nat) (bound i : Nat) : Nat :=
  ids[i]?.getD (bound + i)

theorem entryAt_of_lt (hi : i < ids.length) : entryAt ids bound i = ids[i] := by
  simp [entryAt, hi]

theorem entryAt_of_le (hi : ids.length ≤ i) : entryAt ids bound i = bound + i := by
  simp [entryAt, hi]

theorem entryAt_idxOf (hn : n ∈ ids) : entryAt ids bound (ids.idxOf n) = n := by
  rw [entryAt_of_lt (List.idxOf_lt_length_iff.mpr hn), List.getElem_idxOf]

theorem injective_entryAt (hnodup : ids.Nodup) (hlt : ∀ n ∈ ids, n < bound) :
    Function.Injective (entryAt ids bound) := by
  intro i j heq
  by_cases hi : i < ids.length <;> by_cases hj : j < ids.length
  · rw [entryAt_of_lt hi, entryAt_of_lt hj] at heq
    exact (hnodup.getElem_inj_iff).mp heq
  · rw [entryAt_of_lt hi, entryAt_of_le (Nat.le_of_not_lt hj)] at heq
    have := hlt _ (List.getElem_mem hi)
    omega
  · rw [entryAt_of_le (Nat.le_of_not_lt hi), entryAt_of_lt hj] at heq
    have := hlt _ (List.getElem_mem hj)
    omega
  · rw [entryAt_of_le (Nat.le_of_not_lt hi), entryAt_of_le (Nat.le_of_not_lt hj)] at heq
    omega

theorem map_range_entryAt : (List.range ids.length).map (entryAt ids bound) = ids := by
  refine List.ext_getElem (by simp) fun i hi hi' => ?_
  simp [entryAt_of_lt hi']

-- The entries at the places that are chosen by their entries.
theorem map_filter_range {p q : Nat → Bool} (h : ∀ i (hi : i < ids.length), q i = p ids[i]) :
    ((List.range ids.length).filter q).map (entryAt ids bound) = ids.filter p := by
  have hchosen : (List.range ids.length).filter q = (List.range ids.length).filter (p ∘ entryAt ids bound) := by
    refine List.filter_congr fun i hi => ?_
    have hi := List.mem_range.mp hi
    rw [h i hi, Function.comp_apply, entryAt_of_lt hi]
  rw [hchosen, ← List.filter_map, map_range_entryAt]

theorem getElem?_filterMap {α β : Type} {f : α → Option β} {as : List α} (h : ∀ a ∈ as, (f a).isSome) :
    (as.filterMap f)[i]? = as[i]?.bind f := by
  induction as generalizing i
  case nil => simp
  case cons a as ih =>
    obtain ⟨b, hb⟩ := Option.isSome_iff_exists.mp (h a List.mem_cons_self)
    rw [List.filterMap_cons_some hb]
    cases i
    case zero => simp [hb]
    case succ i => simpa using ih fun a ha => h a (List.mem_cons_of_mem _ ha)

-- Tables and keys are those of the schema, and virtual nodes have no predicates.
structure QueryGraph.FitsSchema (s : Schema) (g : QueryGraph) : Prop where
  table   : ∀ n ∈ g.nodes, (g.node n).table < s.tables.length
  virtual : ∀ n ∈ g.nodes, (g.node n).isVirtual = true → (g.node n).clauses = []
  key     : ∀ e x, g.edge? e = some x → x.key < s.keys.length

instance (s : Schema) (g : QueryGraph) : Decidable (g.FitsSchema s) :=
  decidable_of_iff ((∀ n ∈ g.nodes, (g.node n).table < s.tables.length) ∧
      (∀ n ∈ g.nodes, (g.node n).isVirtual = true → (g.node n).clauses = []) ∧
      ∀ e ∈ g.edgeIds, ∀ x ∈ g.edge? e, x.key < s.keys.length)
    ⟨fun ⟨htable, hvirtual, hkey⟩ => ⟨htable, hvirtual, fun e x he =>
        hkey e (QueryGraph.mem_edgeIds.mpr (Option.isSome_of_mem he)) x he⟩,
      fun ⟨htable, hvirtual, hkey⟩ => ⟨htable, hvirtual, fun e _ x he => hkey e x he⟩⟩

namespace NodeRecord

-- What is read back for a node.
def restored (s : Schema) (g : QueryGraph) (n : Nat) : Occurrence :=
  ((ofNode s g n).occurrence s).toOption.getD default

theorem occurrence_ofNode (hg : g.FitsSchema s) (hn : n ∈ g.nodes) :
    (ofNode s g n).occurrence s = .ok (restored s g n) ∧
      (s.table (restored s g n).table).name = (s.table (g.node n).table).name ∧
      (restored s g n).isVirtual = (g.node n).isVirtual ∧
      (restored s g n).clauses.texts (g.aliasName n) = (g.node n).clauses.texts (g.aliasName n) := by
  obtain ⟨t, ht, hname⟩ := Schema.table?_name (hg.table n hn)
  have hverbatim : ∀ text aliasName, (Atom.verbatim text true).sql aliasName = text := fun _ _ => rfl
  cases hv : (g.node n).isVirtual
  case true =>
    have hread : (ofNode s g n).occurrence s = .ok (.virtual s t) := by simp [occurrence, ofNode, ht, hv]
    simp [restored, hread, Except.toOption, Occurrence.virtual, hname, hg.virtual n hn hv]
  case false =>
    have hread : (ofNode s g n).occurrence s = .ok { (g.node n) with
        table := t, clauses := ((g.node n).clauses.texts (g.aliasName n)).map (·.map (Atom.verbatim · true)) } := by
      simp [occurrence, ofNode, ht, hv, Clauses.texts]
    simp [restored, hread, Except.toOption, hname, hv, Clauses.texts, hverbatim, Function.comp_def]

end NodeRecord

namespace QueryGraph

-- The nodes that are read back for some nodes.
def placed (s : Schema) (g : QueryGraph) (kept : List Nat) : QueryGraph :=
  kept.foldl (fun h n => (h.add (NodeRecord.restored s g n) (g.aliasName n)).2) empty

theorem placed_concat : placed s g (kept ++ [n]) =
    ((placed s g kept).add (NodeRecord.restored s g n) (g.aliasName n)).2 := by
  simp [placed]

theorem slots_placed : (placed s g kept).slots = kept.map fun n =>
    { aliasName := g.aliasName n, occurrence := some (NodeRecord.restored s g n), outgoing := [], incoming := [] } := by
  induction kept using List.reverseRecOn
  case nil => rfl
  case append_singleton kept n ih => simp [placed_concat, add, ih]

theorem nodes_placed : (placed s g kept).nodes = List.range kept.length := by
  induction kept using List.reverseRecOn
  case nil => rfl
  case append_singleton kept n ih => simp [placed_concat, add, ih, slots_placed, List.range_succ]

theorem edges_placed : (placed s g kept).edges = [] := by
  induction kept using List.reverseRecOn
  case nil => rfl
  case append_singleton kept n ih => simp [placed_concat, add, ih]

-- Nodes are found by their aliases, as these are all different.
theorem byAlias?_placed (hinj : ∀ m ∈ kept, ∀ n ∈ kept, g.aliasName m = g.aliasName n → m = n) (hn : n ∈ kept)
    (hnodup : kept.Nodup) : (placed s g kept).byAlias? (g.aliasName n) = some (kept.idxOf n) := by
  induction kept using List.reverseRecOn
  case nil => cases hn
  case append_singleton kept m ih =>
    have hlength : (placed s g kept).slots.length = kept.length := by simp [slots_placed]
    have ⟨hkept, _, hnew⟩ := List.nodup_append.mp hnodup
    rw [placed_concat, byAlias?_add, hlength]
    rcases List.mem_append.mp hn with hn | hn
    · have hne : g.aliasName n ≠ g.aliasName m := fun heq =>
        hnew n hn m (List.mem_singleton_self m) (hinj n (List.mem_append_left _ hn) m (by simp) heq)
      rw [if_neg hne, List.idxOf_append_of_mem hn]
      exact ih (fun a ha b hb => hinj a (List.mem_append_left _ ha) b (List.mem_append_left _ hb)) hn hkept
    · obtain rfl := List.mem_singleton.mp hn
      have hnot : n ∉ kept := fun h => hnew n h n (List.mem_singleton_self n) rfl
      simp [List.idxOf_append_of_notMem hnot]

end QueryGraph

namespace QueryGraph

variable {xs : List Edge}

theorem withEdges_concat : h.withEdges (xs ++ [x]) = ((h.withEdges xs).addEdge x.source x.key x.target).2 := by
  simp [withEdges]

theorem sameNodes_withEdges : SameNodes h (h.withEdges xs) := by
  induction xs using List.reverseRecOn
  case nil => exact .refl
  case append_singleton xs x ih =>
    rw [withEdges_concat]
    exact ih.trans sameNodes_addEdge

-- The places of the edges that are chosen.
def placesOf (xs : List Edge) (p : Edge → Bool) : List Nat :=
  (List.range xs.length).filter fun i => xs[i]?.any p

theorem placesOf_concat {p : Edge → Bool} :
    placesOf (xs ++ [x]) p = placesOf xs p ++ if p x then [xs.length] else [] := by
  have hbefore : (List.range xs.length).filter (fun i => (xs ++ [x])[i]?.any p) = placesOf xs p :=
    List.filter_congr fun i hi => by rw [List.getElem?_append_left (List.mem_range.mp hi)]
  simp [placesOf, List.range_succ, hbefore, List.filter_singleton]

theorem outgoing_withEdges (hedges : h.edges = []) (hs : ∀ x ∈ xs, x.source < h.slots.length) :
    (h.withEdges xs).outgoing n = h.outgoing n ++ placesOf xs (·.source == n) := by
  induction xs using List.reverseRecOn
  case nil => simp [withEdges, placesOf]
  case append_singleton xs x ih =>
    have hlt : x.source < (h.withEdges xs).slots.length := by simpa [sameNodes_withEdges.length] using hs x (by simp)
    have hlength : (h.withEdges xs).edges.length = xs.length := by simp [edges_withEdges, hedges]
    rw [withEdges_concat, outgoing_addEdge hlt, ih fun y hy => hs y (List.mem_append_left _ hy), hlength,
      placesOf_concat, List.append_assoc]
    simp

theorem incoming_withEdges (hedges : h.edges = []) (ht : ∀ x ∈ xs, x.target < h.slots.length) :
    (h.withEdges xs).incoming n = h.incoming n ++ placesOf xs (·.target == n) := by
  induction xs using List.reverseRecOn
  case nil => simp [withEdges, placesOf]
  case append_singleton xs x ih =>
    have hlt : x.target < (h.withEdges xs).slots.length := by simpa [sameNodes_withEdges.length] using ht x (by simp)
    have hlength : (h.withEdges xs).edges.length = xs.length := by simp [edges_withEdges, hedges]
    rw [withEdges_concat, incoming_addEdge hlt, ih fun y hy => ht y (List.mem_append_left _ hy), hlength,
      placesOf_concat, List.append_assoc]
    simp

end QueryGraph

namespace QueryGraph

-- The edges of a record, between places.
def recordedEdges (g : QueryGraph) : List Edge :=
  (g.edgesBySource.filterMap g.edge?).map (Edge.map g.nodes.idxOf)

-- The graph that is read back.
def restored (s : Schema) (g : QueryGraph) : QueryGraph :=
  (placed s g g.nodes).withEdges g.recordedEdges

-- The edges to a node in the order of the nodes that they come from.
def incomingBySource (g : QueryGraph) (n : Nat) : List Nat :=
  g.edgesBySource.filter fun e => (g.edge? e).any (·.target == n)

-- The same graph with the edges to every node in this order.
def bySource (g : QueryGraph) : QueryGraph :=
  { g with slots := g.slots.mapIdx fun n slot => { slot with incoming := g.incomingBySource n } }

end QueryGraph

theorem addTo_ofNode (hg : g.FitsSchema s) (hn : n ∈ g.nodes) :
    (NodeRecord.ofNode s g n).addTo s h = .ok (h.add (NodeRecord.restored s g n) (g.aliasName n)).2 := by
  rw [NodeRecord.addTo, (NodeRecord.occurrence_ofNode hg hn).1]
  rfl

theorem addTo_ofEdge (hkeys : (s.keys.map ForeignKey.name).Nodup) (hx : x.key < s.keys.length)
    (hs : h.byAlias? (g.aliasName x.source) = some m) (ht : h.byAlias? (g.aliasName x.target) = some n) :
    (EdgeRecord.ofEdge s g x).addTo s h = .ok (h.addEdge m x.key n).2 := by
  simp only [EdgeRecord.addTo, EdgeRecord.ofEdge, EdgeRecord.node, hs, ht, Schema.key?_name hkeys hx]
  rfl

-- Reading back succeeds.
theorem toGraph_ofGraph (hkeys : (s.keys.map ForeignKey.name).Nodup) (hwf : g.WellFormed) (hg : g.FitsSchema s)
    (id : Nat) : (QueryRecord.ofGraph s id g).toGraph s = .ok (g.restored s) := by
  have hnodes : (g.nodes.map (NodeRecord.ofNode s g)).foldlM (NodeRecord.addTo s) QueryGraph.empty =
      .ok (QueryGraph.placed s g g.nodes) := by
    rw [List.foldlM_map]
    exact Outcome.foldlM_eq_ok (P := fun _ => True) (fun n hn h _ => ⟨addTo_ofNode hg hn, trivial⟩) trivial
  -- Edges change nothing about aliases.
  have hfound : ∀ h : QueryGraph, h.aliasIndex = (QueryGraph.placed s g g.nodes).aliasIndex → ∀ n, g.contains n = true →
      h.byAlias? (g.aliasName n) = some (g.nodes.idxOf n) := by
    intro h hindex n hn
    have hmem : ∀ m, m ∈ g.nodes → g.contains m = true := fun m => (hwf.mem_nodes m).mp
    rw [QueryGraph.byAlias?, hindex]
    exact QueryGraph.byAlias?_placed (fun m hm n hn => hwf.aliasName_inj (hmem m hm) (hmem n hn))
      ((hwf.mem_nodes n).mpr hn) hwf.nodup_nodes
  have hedges : ((g.edgesBySource.filterMap g.edge?).map (EdgeRecord.ofEdge s g)).foldlM (EdgeRecord.addTo s)
      (QueryGraph.placed s g g.nodes) = .ok (g.restored s) := by
    rw [List.foldlM_map, QueryGraph.restored, QueryGraph.withEdges, QueryGraph.recordedEdges, List.foldl_map]
    refine Outcome.foldlM_eq_ok (P := fun h => h.aliasIndex = (QueryGraph.placed s g g.nodes).aliasIndex) ?_ rfl
    intro x hx h hindex
    obtain ⟨e, -, he⟩ := List.mem_filterMap.mp hx
    obtain ⟨hs, ht⟩ := hwf.source_mem e x he
    exact ⟨addTo_ofEdge hkeys (hg.key e x he) (hfound h hindex _ hs) (hfound h hindex _ ht), hindex⟩
  rw [QueryRecord.toGraph, QueryRecord.ofGraph, hnodes]
  exact hedges

namespace QueryGraph

theorem flatMap_ite {ns es : List Nat} (hnodup : ns.Nodup) (hn : n ∈ ns) :
    ns.flatMap (fun m => if m = n then es else []) = es := by
  induction ns
  case nil => cases hn
  case cons m ns ih =>
    have ⟨hm, hns⟩ := List.nodup_cons.mp hnodup
    rw [List.flatMap_cons]
    split
    case isTrue heq =>
      have hrest : ns.flatMap (fun m => if m = n then es else []) = [] := by
        refine List.flatMap_eq_nil_iff.mpr fun k hk => if_neg ?_
        rintro rfl
        exact hm (heq ▸ hk)
      rw [hrest, List.append_nil]
    case isFalse hne =>
      rw [List.nil_append]
      exact ih hns ((List.mem_cons.mp hn).resolve_left (Ne.symm hne))

theorem filter_edgesBySource (hwf : g.WellFormed) (hn : n ∈ g.nodes) :
    g.edgesBySource.filter (fun e => (g.edge? e).any (·.source == n)) = g.outgoing n := by
  have hedges : ∀ m, (g.outgoing m).filter (fun e => (g.edge? e).any (·.source == n)) =
      if m = n then g.outgoing n else [] := by
    intro m
    have hsource : ∀ e ∈ g.outgoing m, (g.edge? e).any (·.source == n) = (m == n) := by
      intro e he
      obtain ⟨x, hx, rfl⟩ := (hwf.wired.mem_outgoing m e).mp he
      simp [hx]
    rw [List.filter_congr hsource]
    split
    case isTrue heq => simp [heq]
    case isFalse hne => simp [hne]
  rw [edgesBySource, List.filter_flatMap]
  simp only [hedges]
  exact flatMap_ite hwf.nodup_nodes hn

theorem slot?_bySource : g.bySource.slot? n =
    (g.slot? n).map fun slot => { slot with incoming := g.incomingBySource n } := by
  simp [slot?, bySource]

theorem node?_bySource : g.bySource.node? n = g.node? n :=
  node?_of_slot? slot?_bySource fun _ => rfl

theorem aliasName_bySource : g.bySource.aliasName n = g.aliasName n :=
  aliasName_of_slot? slot?_bySource fun _ => rfl

theorem outgoing_bySource : g.bySource.outgoing n = g.outgoing n := by
  rw [outgoing_of_slot? slot?_bySource, outgoing]

theorem incoming_bySource (hn : n < g.slots.length) : g.bySource.incoming n = g.incomingBySource n := by
  obtain ⟨slot, hslot⟩ := exists_slot? hn
  rw [incoming_of_slot? slot?_bySource, hslot, Option.map_some, Option.getD_some]

section

variable (hwf : g.WellFormed)

include hwf

theorem isSome_edge? : ∀ e ∈ g.edgesBySource, (g.edge? e).isSome :=
  fun e he => (hwf.listsEdges_edgesBySource.mem_iff e).mp he

theorem getElem?_recordedEdges :
    g.recordedEdges[i]? = (g.edgesBySource[i]?.bind g.edge?).map (Edge.map g.nodes.idxOf) := by
  rw [recordedEdges, List.getElem?_map, getElem?_filterMap (isSome_edge? hwf)]

theorem length_recordedEdges : g.recordedEdges.length = g.edgesBySource.length := by
  rw [recordedEdges, List.length_map, List.length_filterMap_eq_countP, List.countP_eq_length]
  exact isSome_edge? hwf

-- The places of edges stand for edges whose ends stand for those.
theorem map_placesOf {p q : Edge → Bool} (h : ∀ e x, g.edge? e = some x → p (x.map g.nodes.idxOf) = q x) :
    (placesOf g.recordedEdges p).map (entryAt g.edgesBySource bound) =
      g.edgesBySource.filter fun e => (g.edge? e).any q := by
  rw [placesOf, length_recordedEdges hwf]
  refine map_filter_range fun i hi => ?_
  obtain ⟨x, hx⟩ := Option.isSome_iff_exists.mp (isSome_edge? hwf _ (List.getElem_mem hi))
  simp [getElem?_recordedEdges hwf, hi, hx, h _ x hx]

end

theorem length_restored : (g.restored s).slots.length = g.nodes.length := by
  rw [restored, sameNodes_withEdges.length, slots_placed, List.length_map]

theorem node?_restored : (g.restored s).node? i = g.nodes[i]?.map (NodeRecord.restored s g) := by
  rw [restored, sameNodes_withEdges.node?, node?, slot?, slots_placed, List.getElem?_map]
  cases g.nodes[i]? <;> rfl

theorem aliasName_restored : (g.restored s).aliasName i = (g.nodes[i]?.map g.aliasName).getD "" := by
  rw [restored, sameNodes_withEdges.aliasName, aliasName, slot?, slots_placed, List.getElem?_map]
  cases g.nodes[i]? <;> rfl

theorem edge?_restored : (g.restored s).edge? e = g.recordedEdges[e]? := by
  rw [restored, edge?, edges_withEdges, edges_placed, List.nil_append, List.getElem?_map]
  cases g.recordedEdges[e]? <;> rfl

theorem ends_recordedEdges (hwf : g.WellFormed) : ∀ x ∈ g.recordedEdges,
    x.source < (placed s g g.nodes).slots.length ∧ x.target < (placed s g g.nodes).slots.length := by
  intro x hx
  obtain ⟨y, hy, rfl⟩ := List.mem_map.mp hx
  obtain ⟨e, -, he⟩ := List.mem_filterMap.mp hy
  have ⟨hs, ht⟩ := hwf.source_mem e y he
  have hplace : ∀ n, g.contains n = true → g.nodes.idxOf n < (placed s g g.nodes).slots.length := by
    intro n hn
    rw [slots_placed, List.length_map]
    exact List.idxOf_lt_length_iff.mpr ((hwf.mem_nodes n).mpr hn)
  exact ⟨hplace _ hs, hplace _ ht⟩

theorem outgoing_restored (hwf : g.WellFormed) :
    (g.restored s).outgoing i = placesOf g.recordedEdges (·.source == i) := by
  have hnone : (placed s g g.nodes).outgoing i = [] := by
    rw [outgoing, slot?, slots_placed, List.getElem?_map]
    cases g.nodes[i]? <;> rfl
  rw [restored, outgoing_withEdges edges_placed fun x hx => (ends_recordedEdges hwf x hx).1, hnone, List.nil_append]

theorem incoming_restored (hwf : g.WellFormed) :
    (g.restored s).incoming i = placesOf g.recordedEdges (·.target == i) := by
  have hnone : (placed s g g.nodes).incoming i = [] := by
    rw [incoming, slot?, slots_placed, List.getElem?_map]
    cases g.nodes[i]? <;> rfl
  rw [restored, incoming_withEdges edges_placed fun x hx => (ends_recordedEdges hwf x hx).2, hnone, List.nil_append]

-- A place stands for a node, or for one of the numbers that are not in use.
theorem place_cases (hwf : g.WellFormed) (s : Schema) (i : Nat) :
    (∃ n ∈ g.nodes, g.nodes[i]? = some n ∧ entryAt g.nodes g.slots.length i = n ∧
      ∀ m ∈ g.nodes, (g.nodes.idxOf m == i) = (m == n)) ∨
    (g.nodes[i]? = none ∧ (g.restored s).slot? i = none ∧
      g.bySource.slot? (entryAt g.nodes g.slots.length i) = none) := by
  by_cases hi : i < g.nodes.length
  case pos =>
    refine .inl ⟨g.nodes[i], List.getElem_mem hi, List.getElem?_eq_getElem hi, entryAt_of_lt hi, fun m hm => ?_⟩
    have hplace : g.nodes.idxOf m = i ↔ m = g.nodes[i] := by
      constructor
      · rintro rfl
        exact (List.getElem_idxOf _).symm
      · rintro rfl
        exact hwf.nodup_nodes.idxOf_getElem i hi
    rw [Bool.eq_iff_iff, beq_iff_eq, beq_iff_eq, hplace]
  case neg =>
    have hi := Nat.le_of_not_lt hi
    refine .inr ⟨List.getElem?_eq_none hi, List.getElem?_eq_none (length_restored ▸ hi), ?_⟩
    rw [slot?_bySource, entryAt_of_le hi]
    simp [slot?]

-- A node that is there and what is read back for it.
theorem node_restored (hwf : g.WellFormed) (hn : n ∈ g.nodes) (hplace : g.nodes[i]? = some n) :
    (g.restored s).node? i = some (NodeRecord.restored s g n) ∧ g.bySource.node? n = some (g.node n) := by
  rw [node?_restored, hplace, node?_bySource]
  exact ⟨rfl, node?_eq_some_node ((hwf.mem_nodes n).mp hn)⟩

theorem copy_restored (hwf : g.WellFormed) (hg : g.FitsSchema s) :
    Copy s (entryAt g.nodes g.slots.length) (entryAt g.edgesBySource g.edges.length) (g.restored s) g.bySource where
  inj := injective_entryAt hwf.nodup_nodes fun n hn => lt_of_contains ((hwf.mem_nodes n).mp hn)
  nodes := by
    rw [restored, sameNodes_withEdges.nodes, nodes_placed, map_range_entryAt]
    rfl
  lt_length i := by
    have hlt : ∀ (h : QueryGraph) n, n < h.slots.length ↔ h.slot? n ≠ none := fun h n => by
      rw [slot?, Ne, List.getElem?_eq_none_iff, Nat.not_le]
    rcases place_cases hwf s i with ⟨n, hn, hplace, hentry, -⟩ | ⟨-, hnone, hnone'⟩
    · have hi := (List.getElem?_eq_some_iff.mp hplace).1
      have hn := lt_of_contains ((hwf.mem_nodes n).mp hn)
      rw [hentry, length_restored]
      exact iff_of_true (by simpa [bySource] using hn) hi
    · rw [hlt, hlt, hnone, hnone']
  outgoing i := by
    rw [outgoing_restored hwf]
    rcases place_cases hwf s i with ⟨n, hn, -, hentry, hplace⟩ | ⟨-, hnone, hnone'⟩
    · rw [hentry, outgoing_bySource, ← filter_edgesBySource hwf hn]
      refine (map_placesOf hwf fun e x hx => hplace _ ?_).symm
      exact (hwf.mem_nodes _).mpr (hwf.source_mem e x hx).1
    · rw [← outgoing_restored (s := s) hwf, QueryGraph.outgoing, QueryGraph.outgoing, hnone, hnone']
      rfl
  incoming i := by
    rw [incoming_restored hwf]
    rcases place_cases hwf s i with ⟨n, hn, -, hentry, hplace⟩ | ⟨-, hnone, hnone'⟩
    · rw [hentry, incoming_bySource (lt_of_contains ((hwf.mem_nodes n).mp hn)), incomingBySource]
      refine (map_placesOf hwf fun e x hx => hplace _ ?_).symm
      exact (hwf.mem_nodes _).mpr (hwf.source_mem e x hx).2
    · rw [← incoming_restored (s := s) hwf, QueryGraph.incoming, QueryGraph.incoming, hnone, hnone']
      rfl
  edge? e := by
    have hsame : ∀ e, g.bySource.edge? e = g.edge? e := fun _ => rfl
    rw [hsame, edge?_restored, getElem?_recordedEdges hwf]
    by_cases he : e < g.edgesBySource.length
    case pos =>
      obtain ⟨x, hx⟩ := Option.isSome_iff_exists.mp (isSome_edge? hwf _ (List.getElem_mem he))
      obtain ⟨hs, ht⟩ := hwf.source_mem _ x hx
      simp [entryAt_of_lt he, he, hx, Edge.map, entryAt_idxOf ((hwf.mem_nodes _).mpr hs),
        entryAt_idxOf ((hwf.mem_nodes _).mpr ht)]
    case neg =>
      have he := Nat.le_of_not_lt he
      simp [entryAt_of_le he, List.getElem?_eq_none he, QueryGraph.edge?]
  isVirtual i := by
    rcases place_cases hwf s i with ⟨n, hn, hplace, hentry, -⟩ | ⟨-, hnone, hnone'⟩
    · obtain ⟨hi, hnode⟩ := node_restored (s := s) hwf hn hplace
      rw [hentry, QueryGraph.isVirtual, QueryGraph.isVirtual, hi, hnode]
      exact (NodeRecord.occurrence_ofNode hg hn).2.2.1.symm
    · simp [QueryGraph.isVirtual, node?, hnone, hnone']
  aliasName i := by
    rcases place_cases hwf s i with ⟨n, hn, hplace, hentry, -⟩ | ⟨-, hnone, hnone'⟩
    · rw [hentry, aliasName_restored, hplace, aliasName_bySource]
      rfl
    · simp [QueryGraph.aliasName, hnone, hnone']
  tableName i := by
    rcases place_cases hwf s i with ⟨n, hn, hplace, hentry, -⟩ | ⟨-, hnone, hnone'⟩
    · obtain ⟨hi, hnode⟩ := node_restored (s := s) hwf hn hplace
      rw [hentry, node, node, hi, hnode]
      exact (NodeRecord.occurrence_ofNode hg hn).2.1.symm
    · simp [node, node?, hnone, hnone']
  texts i := by
    rcases place_cases hwf s i with ⟨n, hn, hplace, hentry, -⟩ | ⟨-, hnone, hnone'⟩
    · obtain ⟨hi, hnode⟩ := node_restored (s := s) hwf hn hplace
      rw [hentry, aliasName_restored, hplace, node, node, hi, hnode]
      exact (NodeRecord.occurrence_ofNode hg hn).2.2.2.symm
    · simp [node, node?, hnone, hnone']

end QueryGraph

end Subplans
