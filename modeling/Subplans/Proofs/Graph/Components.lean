import Subplans.Proofs.Closure
import Subplans.Proofs.Graph.Visits
import Subplans.Query.Subquery

/-!
The components of a query graph.

A traversal starts anew only when it has listed all that is connected with the nodes before. So the lists that it is
cut into are the connected components (`Linked.mem_component`), and every node is in one of them
(`Linked.exists_component`).
-/

namespace Subplans.QueryGraph

open Closure Relation

variable {g : QueryGraph} {n m e start : Nat} {listed listed' old stack starts part es : List Nat} {x : Edge}
  {visits block : List (Nat × List Nat)}

-- An edge leads from the one node to the other.
def Adjacent (g : QueryGraph) (n m : Nat) : Prop :=
  ∃ x, g.HasEdge x ∧ x.source = n ∧ x.target = m

-- Edges lead from the one node to the other, in whichever direction.
def Connects (g : QueryGraph) : Nat → Nat → Prop :=
  EqvGen g.Adjacent

-- All nodes are connected by edges.
def Connected (g : QueryGraph) : Prop :=
  ∀ n m, g.contains n = true → g.contains m = true → g.Connects n m

theorem connects_of_hasEdge (hx : g.HasEdge x) : g.Connects x.source x.target :=
  .rel _ _ ⟨x, hx, rfl, rfl⟩

namespace Linked

theorem connects_neighbor (hg : g.Linked) (h : m ∈ g.neighbors n) : g.Connects n m := by
  obtain ⟨x, hx, ⟨rfl, rfl⟩ | ⟨rfl, rfl⟩⟩ := hg.mem_neighbors.mp h
  case inl => exact connects_of_hasEdge hx
  case inr => exact .symm _ _ (connects_of_hasEdge hx)

-- No connection leads out of nodes that have all their neighbours listed, nor to them.
theorem mem_listed (hg : g.Linked) (hc : ∀ n ∈ listed, g.Closed listed n) (h : g.Connects n m) :
    n ∈ listed ↔ m ∈ listed := by
  induction h
  case rel n m h =>
    obtain ⟨x, hx, rfl, rfl⟩ := h
    constructor
    · exact fun hn => hc _ hn _ (hg.mem_neighbors.mpr ⟨x, hx, .inl ⟨rfl, rfl⟩⟩)
    · exact fun hm => hc _ hm _ (hg.mem_neighbors.mpr ⟨x, hx, .inr ⟨rfl, rfl⟩⟩)
  case refl => exact .rfl
  case symm ih => exact ih.symm
  case trans ih ih' => exact ih.trans ih'

-- A neighbour of a listed node has an edge to a listed node.
theorem edgesTo_ne_nil (hg : g.Linked) (hm : m ∈ listed) (h : n ∈ g.neighbors m) : g.edgesTo listed n ≠ [] := by
  obtain ⟨x, ⟨e, he⟩, hends⟩ := hg.mem_neighbors.mp h
  refine List.ne_nil_of_mem (hg.mem_edgesTo.mpr ⟨x, he, ?_⟩)
  obtain ⟨rfl, rfl⟩ | ⟨rfl, rfl⟩ := hends
  case inl => exact ⟨.inr rfl, .inl hm⟩
  case inr => exact ⟨.inl rfl, .inr hm⟩

end Linked

-- Edges between listed nodes lead from the one node to the other.
def Inside (g : QueryGraph) (listed : List Nat) : Nat → Nat → Prop :=
  EqvGen fun n m => n ∈ listed ∧ m ∈ listed ∧ g.Adjacent n m

theorem Inside.mono (h : g.Inside listed n m) (hsub : listed ⊆ listed') : g.Inside listed' n m :=
  of_le (fun _ _ h => .rel _ _ ⟨hsub h.1, hsub h.2.1, h.2.2⟩) h

theorem Inside.connects (h : g.Inside listed n m) : g.Connects n m :=
  of_le (fun _ _ h => .rel _ _ h.2.2) h

-- The node is visited in a walk from `start` next to the nodes that it has listed. These are connected with the start
-- along listed nodes, apart from the `old` ones that were listed before.
structure Attached (g : QueryGraph) (old : List Nat) (start : Nat) (listed : List Nat) (n : Nat) : Prop where
  new      : n ∉ listed
  before   : old ⊆ listed
  inside   : ∀ m ∈ listed, m ∈ old ∨ g.Inside listed start m
  neighbor : ∃ m ∈ listed, n ∈ g.neighbors m ∧ g.Inside listed start m

namespace Linked

theorem inside_neighbor (hg : g.Linked) (h : m ∈ g.neighbors n) (hn : n ∈ listed) (hm : m ∈ listed) :
    g.Inside listed n m := by
  obtain ⟨x, hx, ⟨rfl, rfl⟩ | ⟨rfl, rfl⟩⟩ := hg.mem_neighbors.mp h
  case inl => exact .rel _ _ ⟨hn, hm, x, hx, rfl, rfl⟩
  case inr => exact .symm _ _ (.rel _ _ ⟨hm, hn, x, hx, rfl, rfl⟩)

theorem attached_walk (hg : g.Linked) (hold : old ⊆ listed) (hin : ∀ m ∈ listed, m ∈ old ∨ g.Inside listed start m)
    (hs : ∀ n ∈ stack, ∃ m ∈ listed, n ∈ g.neighbors m ∧ g.Inside listed start m) :
    ∀ v ∈ (g.walk listed stack).1, ∃ listed', g.Attached old start listed' v.1 ∧ v.2 = g.edgesTo listed' v.1 := by
  fun_induction walk g listed stack
  case case1 => rintro _ ⟨⟩
  case case2 listed next rest hnext _ visits listed' heq ih =>
    have hgrow : listed ⊆ next :: listed := List.subset_cons_self next listed
    obtain ⟨m, hm, hneighbor, hinside⟩ := hs next List.mem_cons_self
    have hstart : g.Inside (next :: listed) start next :=
      .trans _ _ _ (hinside.mono hgrow) (hg.inside_neighbor hneighbor (hgrow hm) List.mem_cons_self)
    have hall : ∀ m ∈ next :: listed, m ∈ old ∨ g.Inside (next :: listed) start m := by
      intro m hm
      cases hm
      case head => exact .inr hstart
      case tail hm => exact (hin m hm).imp_right (·.mono hgrow)
    have hstack : ∀ n ∈ (g.neighbors next).reverse ++ rest,
        ∃ m ∈ next :: listed, n ∈ g.neighbors m ∧ g.Inside (next :: listed) start m := by
      intro n hn
      rcases List.mem_append.mp hn with hn | hn
      · exact ⟨next, List.mem_cons_self, List.mem_reverse.mp hn, hstart⟩
      · obtain ⟨m, hm, hneighbor, hinside⟩ := hs n (List.mem_cons_of_mem _ hn)
        exact ⟨m, hgrow hm, hneighbor, hinside.mono hgrow⟩
    have ih := ih (List.Subset.trans hold hgrow) hall hstack
    rw [heq] at ih
    intro v hv
    cases hv
    case head => exact ⟨listed, ⟨hnext.2, hold, hin, m, hm, hneighbor, hinside⟩, rfl⟩
    case tail hv => exact ih v hv
  case case3 listed next rest _ ih => exact ih hold hin fun n hn => hs n (List.mem_cons_of_mem _ hn)

-- So it is for the walk through a component.
theorem attached_component (hg : g.Linked) :
    ∀ v ∈ (g.walk (start :: listed) (g.neighbors start).reverse).1,
      ∃ listed', g.Attached listed start listed' v.1 ∧ v.2 = g.edgesTo listed' v.1 := by
  refine hg.attached_walk (List.subset_cons_self start listed) (fun m hm => ?_) fun n hn => ?_
  case refine_1 =>
    cases hm
    case head => exact .inr (.refl _)
    case tail hm => exact .inl hm
  case refine_2 => exact ⟨start, List.mem_cons_self, List.mem_reverse.mp hn, .refl _⟩

end Linked

-- The walk goes on along edges from the start.
theorem Attached.connects (h : g.Attached old start listed n) (hg : g.Linked) :
    g.edgesTo listed n ≠ [] ∧ g.Connects start n := by
  obtain ⟨m, hm, hneighbor, hinside⟩ := h.neighbor
  exact ⟨hg.edgesTo_ne_nil hm hneighbor, .trans _ _ _ hinside.connects (hg.connects_neighbor hneighbor)⟩

theorem flatten_components : (components visits).flatten = visits.map Prod.fst := by
  fun_induction components visits
  case case1 => rfl
  case case2 hrest ih => simp_all
  case case3 ih => simpa using ih

-- Up to the next visit without edges all nodes are in one component.
theorem components_block (hb : ∀ v ∈ block, v.2 ≠ []) (hr : ∀ v, visits.head? = some v → v.2 = []) :
    components ((n, es) :: block ++ visits) = (n :: block.map Prod.fst) :: components visits := by
  induction block generalizing n es
  case nil =>
    cases visits
    case nil => rfl
    case cons v rest =>
      obtain ⟨m, es'⟩ := v
      cases hr _ rfl
      simp [components]
  case cons v block ih =>
    obtain ⟨m, es'⟩ := v
    have hne : es' ≠ [] := hb (m, es') List.mem_cons_self
    have ih : components ((m, es') :: block ++ visits) = (m :: block.map Prod.fst) :: components visits :=
      ih fun v hv => hb v (List.mem_cons_of_mem _ hv)
    obtain ⟨e, es'', rfl⟩ := List.exists_cons_of_ne_nil hne
    simp only [List.cons_append] at ih ⊢
    rw [components.eq_def]
    simp [ih]

theorem head?_walkFrom {v : Nat × List Nat} (h : (g.walkFrom listed starts).head? = some v) : v.2 = [] := by
  induction starts
  case nil => cases h
  case cons start rest ih =>
    rw [walkFrom] at h
    split at h
    case isTrue => exact ih h
    case isFalse =>
      cases h
      rfl

namespace Linked

-- What holds of the visits of a component, whatever the visits after it, holds of all visits. Before a component all
-- neighbours of listed nodes are listed.
theorem walkFrom_induction {motive : List Nat → List (Nat × List Nat) → Prop} (hg : g.Linked)
    (nil : ∀ listed, motive listed [])
    (component : ∀ listed start r visits, (∀ n ∈ listed, g.Closed listed n) → start ∉ listed →
      r = g.walk (start :: listed) (g.neighbors start).reverse →
      Walked g (start :: listed) (g.neighbors start).reverse r → (∀ v, visits.head? = some v → v.2 = []) →
      motive r.2 visits → motive listed ((start, []) :: r.1 ++ visits))
    (hs : ∀ n ∈ starts, g.contains n = true) (hc : ∀ n ∈ listed, g.Closed listed n) :
    motive listed (g.walkFrom listed starts) := by
  induction starts generalizing listed
  case nil => exact nil listed
  case cons start rest ih =>
    have hrest : ∀ n ∈ rest, g.contains n = true := fun n hn => hs n (List.mem_cons_of_mem _ hn)
    by_cases hmem : start ∈ listed
    case pos =>
      have heq : g.walkFrom listed (start :: rest) = g.walkFrom listed rest := by simp [walkFrom, hmem]
      rw [heq]
      exact ih hrest hc
    case neg =>
      have hneighbors : ∀ m ∈ (g.neighbors start).reverse, g.contains m = true :=
        fun m hm => hg.contains_neighbor (List.mem_reverse.mp hm)
      have hwalk : Walked g (start :: listed) _ _ := walked_walk hg hneighbors
      have heq : g.walkFrom listed (start :: rest) =
          (start, []) :: (g.walk (start :: listed) (g.neighbors start).reverse).1 ++
            g.walkFrom (g.walk (start :: listed) (g.neighbors start).reverse).2 rest := by
        simp [walkFrom, hmem]
      rw [heq]
      have hvisits := ih hrest (hwalk.closed_component hc)
      exact component listed start _ _ hc hmem rfl hwalk (fun _ => head?_walkFrom) hvisits

theorem component_walkFrom (hg : g.Linked) (hs : ∀ n ∈ starts, g.contains n = true)
    (hc : ∀ n ∈ listed, g.Closed listed n) :
    ∀ part ∈ components (g.walkFrom listed starts), ∃ start ∈ part, ∀ n, n ∈ part ↔ g.Connects start n := by
  refine hg.walkFrom_induction
    (motive := fun _ visits => ∀ part ∈ components visits, ∃ start ∈ part, ∀ n, n ∈ part ↔ g.Connects start n)
    (fun _ => nofun) ?_ hs hc
  intro listed start r visits hc hmem hr hwalk hhead ih
  have hconnects : ∀ v ∈ r.1, v.2 ≠ [] ∧ g.Connects start v.1 := by
    intro v hv
    obtain ⟨_, hattached, heq⟩ := hg.attached_component v (hr ▸ hv)
    rw [heq]
    exact hattached.connects hg
  rw [components_block (fun v hv => (hconnects v hv).1) hhead]
  have hclosed := hwalk.closed_component hc
  intro part hpart
  cases hpart
  case tail hpart => exact ih part hpart
  case head =>
    refine ⟨start, List.mem_cons_self, fun n => ⟨fun hn => ?_, fun h => ?_⟩⟩
    case refine_1 =>
      cases hn
      case head => exact .refl _
      case tail hn =>
        obtain ⟨v, hv, rfl⟩ := List.mem_map.mp hn
        exact (hconnects v hv).2
    case refine_2 =>
      -- What is connected with the start is listed after the walk, and has not been listed before it.
      have hstart : start ∈ r.2 := by simp [hwalk.listing, mem_listing]
      have hn := (hg.mem_listed hclosed h).mp hstart
      have hnot : n ∉ listed := fun hn => hmem ((hg.mem_listed hc h).mpr hn)
      rw [hwalk.listing, mem_listing] at hn
      simp only [List.mem_cons, hnot, or_false] at hn
      exact List.mem_cons.mpr hn.symm

theorem component_traverse (hg : g.Linked) :
    ∀ part ∈ components g.traverse, ∃ start ∈ part, ∀ n, n ∈ part ↔ g.Connects start n :=
  hg.component_walkFrom (fun n hn => (hg.mem_nodes n).mp hn) nofun

theorem mem_component (hg : g.Linked) (hpart : part ∈ components g.traverse) (hn : n ∈ part) :
    m ∈ part ↔ g.Connects n m := by
  have ⟨start, _, hmem⟩ := hg.component_traverse part hpart
  have hstart := (hmem n).mp hn
  rw [hmem]
  exact ⟨.trans _ _ _ (.symm _ _ hstart), .trans _ _ _ hstart⟩

theorem exists_component (hg : g.Linked) (hn : g.contains n = true) : ∃ part ∈ components g.traverse, n ∈ part := by
  have hmem : n ∈ (components g.traverse).flatten := by
    rw [flatten_components]
    exact hg.mem_visitOrder.mpr hn
  exact List.mem_flatten.mp hmem

theorem contains_component (hg : g.Linked) (hpart : part ∈ components g.traverse) (hn : n ∈ part) :
    g.contains n = true := by
  have hmem : n ∈ (components g.traverse).flatten := List.mem_flatten.mpr ⟨part, hpart, hn⟩
  rw [flatten_components] at hmem
  exact hg.mem_visitOrder.mp hmem

theorem perm_components (hg : g.Linked) : (components g.traverse).flatten.Perm g.nodes := by
  have hflatten : (components g.traverse).flatten = g.visitOrder := flatten_components
  rw [hflatten, List.perm_ext_iff_of_nodup hg.nodup_visitOrder hg.nodup_nodes]
  intro n
  rw [hg.mem_nodes, hg.mem_visitOrder]

end Linked

end Subplans.QueryGraph
