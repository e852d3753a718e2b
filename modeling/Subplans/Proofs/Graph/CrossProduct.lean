import Mathlib.Data.List.Perm.Subperm
import Subplans.Proofs.Graph.Components

/-!
Cross products, as they are detected.

A cross product is detected by counting: there are too few edges for all nodes. The first edges of the visits after the
start of each component are too few just if there is more than one component (`length_components`). So a query that is
connected has none (`WellFormed.hasCrossProduct_of_connected`). Edges that close a cycle make up for those that are
missing between components; without such edges a query that is not connected has one
(`Acyclic.hasCrossProduct_iff`).
-/

namespace Subplans.QueryGraph

open Closure Relation

variable {g : QueryGraph} {n m e e' start : Nat} {listed old starts part es : List Nat} {x : Edge}
  {visits : List (Nat × List Nat)}

-- Every edge is the only connection of its ends.
def Acyclic (g : QueryGraph) : Prop :=
  ∀ e x, g.edge? e = some x → ¬(g.removeEdge e).Connects x.source x.target

-- The first edge of every visit that has edges.
def firstEdges (visits : List (Nat × List Nat)) : List Nat :=
  visits.filterMap fun v => v.2.head?

theorem mem_firstEdges : e ∈ firstEdges visits ↔ ∃ v ∈ visits, v.2.head? = some e := by
  simp [firstEdges]

theorem length_components_cons :
    (components ((n, es) :: visits)).length + (firstEdges visits).length = visits.length + 1 := by
  induction visits generalizing n es
  case nil => rfl
  case cons v visits ih =>
    obtain ⟨m, es'⟩ := v
    have ih : (components ((m, es') :: visits)).length + (firstEdges visits).length = visits.length + 1 := ih
    have hle : (firstEdges visits).length ≤ visits.length := List.length_filterMap_le ..
    cases es'
    case nil =>
      have hcomponents : components ((n, es) :: (m, []) :: visits) = [n] :: components ((m, []) :: visits) := by
        rw [components.eq_def]
      have hfirst : firstEdges ((m, []) :: visits) = firstEdges visits := rfl
      rw [hcomponents, hfirst, List.length_cons, List.length_cons]
      omega
    case cons e es' =>
      have hfirst : firstEdges ((m, e :: es') :: visits) = e :: firstEdges visits := rfl
      have hcomponents : (components ((n, es) :: (m, e :: es') :: visits)).length =
          (components ((m, e :: es') :: visits)).length := by
        rw [components.eq_def]
        cases hrest : components ((m, e :: es') :: visits)
        case nil =>
          rw [hrest, List.length_nil] at ih
          omega
        case cons => simp [hrest]
      rw [hcomponents, hfirst, List.length_cons, List.length_cons]
      omega

-- Every visit starts a component or has a first edge.
theorem length_components (hstart : ∀ v, visits.head? = some v → v.2 = []) :
    (components visits).length + (firstEdges visits).length = visits.length := by
  cases visits
  case nil => rfl
  case cons v visits =>
    obtain ⟨n, es⟩ := v
    cases hstart _ rfl
    exact length_components_cons

-- An edge to a listed node is not one to a node that is visited later.
theorem Visits.nodup_firstEdges (hg : g.Linked) (h : g.Visits listed visits) : (firstEdges visits).Nodup := by
  -- An edge of a later visit has an end there, at a node that is not listed yet.
  have hlater : ∀ {listed visits}, g.Visits listed visits → ∀ e ∈ firstEdges visits, ∀ x, g.edge? e = some x →
      x.source ∉ listed ∨ x.target ∉ listed := by
    intro listed visits h
    induction h
    case nil => exact nofun
    case cons listed n visits _ hnew _ ih =>
      intro e he x hx
      obtain ⟨v, hv, hhead⟩ := mem_firstEdges.mp he
      cases hv
      case head =>
        obtain ⟨y, hy, hends, -⟩ := hg.mem_edgesTo.mp (List.mem_of_mem_head? hhead)
        cases hx.symm.trans hy
        rcases hends with rfl | rfl
        · exact .inl hnew
        · exact .inr hnew
      case tail hv =>
        have hnot := ih e (mem_firstEdges.mpr ⟨v, hv, hhead⟩) x hx
        exact hnot.imp (mt (List.mem_cons_of_mem n)) (mt (List.mem_cons_of_mem n))
  induction h
  case nil => exact List.nodup_nil
  case cons listed n visits _ hnew hvisits ih =>
    cases hhead : (g.edgesTo listed n).head?
    case none => simpa [firstEdges, hhead] using ih
    case some e =>
      have heq : firstEdges ((n, g.edgesTo listed n) :: visits) = e :: firstEdges visits := by
        simp [firstEdges, hhead]
      rw [heq, List.nodup_cons]
      refine ⟨fun he => ?_, ih⟩
      obtain ⟨x, hx, hends, hother⟩ := hg.mem_edgesTo.mp (List.mem_of_mem_head? hhead)
      rcases hlater hvisits e he x hx with hnot | hnot <;> simp only [List.mem_cons, not_or] at hnot
      · have ht : x.target = n := hends.resolve_left hnot.1
        exact hother.elim hnot.2 fun h => hnew (ht ▸ h)
      · have hs : x.source = n := hends.resolve_right hnot.1
        exact hother.elim (fun h => hnew (hs ▸ h)) hnot.2

theorem Linked.firstEdges_subset (hg : g.Linked) : firstEdges g.traverse ⊆ g.edgeIds := by
  intro e he
  obtain ⟨v, hv, hhead⟩ := mem_firstEdges.mp he
  have hedges : ∀ {listed visits}, g.Visits listed visits → ∀ v ∈ visits, ∀ e ∈ v.2, (g.edge? e).isSome := by
    intro listed visits h
    induction h
    case nil => exact nofun
    case cons ih =>
      intro v hv e he
      cases hv
      case head =>
        obtain ⟨x, hx, -⟩ := hg.mem_edgesTo.mp he
        rw [hx, Option.isSome_some]
      case tail hv => exact ih v hv e he
  exact mem_edgeIds.mpr (hedges hg.visits_traverse.1 v hv e (List.mem_of_mem_head? hhead))

-- Each edge that is not from a node to itself is listed with the later one of its ends.
theorem Visits.exists_visit (hg : g.Linked) (h : g.Visits listed visits) (hx : g.edge? e = some x)
    (hne : x.source ≠ x.target) (hs : x.source ∈ listing listed visits) (ht : x.target ∈ listing listed visits)
    (hnew : x.source ∉ listed ∨ x.target ∉ listed) : ∃ v ∈ visits, e ∈ v.2 := by
  induction h
  case nil =>
    simp only [listing, List.map_nil, List.reverse_nil, List.nil_append] at hs ht
    exact absurd hnew (by simp [hs, ht])
  case cons listed n visits _ _ _ ih =>
    rw [listing_cons] at hs ht
    by_cases hlater : x.source ∉ n :: listed ∨ x.target ∉ n :: listed
    case pos =>
      obtain ⟨v, hv, he⟩ := ih hs ht hlater
      exact ⟨v, List.mem_cons_of_mem _ hv, he⟩
    case neg =>
      -- Now both ends are listed, one of them just now.
      refine ⟨_, List.mem_cons_self, hg.mem_edgesTo.mpr ⟨x, hx, ?_⟩⟩
      simp only [List.mem_cons, not_or, not_and_or, not_not] at hlater
      grind

theorem Linked.exists_of_mem_edgesTo (hg : g.Linked) (hn : n ∉ listed) (he : e ∈ g.edgesTo listed n) :
    ∃ x, g.edge? e = some x ∧ ∃ m ∈ listed, (x.source = n ∧ x.target = m) ∨ (x.source = m ∧ x.target = n) := by
  obtain ⟨x, hx, rfl | rfl, h | h⟩ := hg.mem_edgesTo.mp he
  · exact absurd h hn
  · exact ⟨x, hx, _, h, .inl ⟨rfl, rfl⟩⟩
  · exact ⟨x, hx, _, h, .inr ⟨rfl, rfl⟩⟩
  · exact absurd h hn

-- An edge that leads out of the listed nodes is not needed between them.
theorem Inside.removeEdge (h : g.Inside listed n m) (hx : g.edge? e = some x)
    (hout : x.source ∉ listed ∨ x.target ∉ listed) : (g.removeEdge e).Connects n m := by
  refine of_le ?_ h
  rintro a b ⟨ha, hb, y, ⟨e', hy⟩, rfl, rfl⟩
  have hne : e' ≠ e := by
    rintro rfl
    cases hx.symm.trans hy
    exact hout.elim (· ha) (· hb)
  exact .rel _ _ ⟨y, ⟨e', by rw [edge?_removeEdge, if_neg hne, hy]⟩, rfl, rfl⟩

namespace Acyclic

variable (ha : g.Acyclic) (hg : g.Linked)

include ha hg

-- Two edges from a node to what is connected already would close a cycle.
theorem unique_edgesTo (hc : ∀ n ∈ old, g.Closed old n) (h : g.Attached old start listed n)
    (he : e ∈ g.edgesTo listed n) (he' : e' ∈ g.edgesTo listed n) : e = e' := by
  by_contra hne
  obtain ⟨x, hx, m, hm, hends⟩ := hg.exists_of_mem_edgesTo h.new he
  obtain ⟨y, hy, m', hm', hends'⟩ := hg.exists_of_mem_edgesTo h.new he'
  -- What the node has edges to is not from before, as the node would be, too.
  have hinside : ∀ {x m}, g.HasEdge x → m ∈ listed → ((x.source = n ∧ x.target = m) ∨ (x.source = m ∧ x.target = n)) →
      g.Inside listed start m := by
    intro x m hx hm hends
    refine (h.inside m hm).resolve_left fun hold => h.new (h.before (hc m hold n (hg.mem_neighbors.mpr ⟨x, hx, ?_⟩)))
    exact hends.symm.imp_right And.symm
  have hout : x.source ∉ listed ∨ x.target ∉ listed := by
    rcases hends with ⟨rfl, -⟩ | ⟨-, rfl⟩
    · exact .inl h.new
    · exact .inr h.new
  have hother : (g.removeEdge e).HasEdge y := ⟨e', by rw [edge?_removeEdge, if_neg (Ne.symm hne), hy]⟩
  have hfirst : (g.removeEdge e).Connects n m' := by
    rcases hends' with ⟨rfl, rfl⟩ | ⟨rfl, rfl⟩
    · exact connects_of_hasEdge hother
    · exact .symm _ _ (connects_of_hasEdge hother)
  have hrest : (g.removeEdge e).Connects m' m :=
    .trans _ _ _ (.symm _ _ ((hinside ⟨e', hy⟩ hm' hends').removeEdge hx hout))
      ((hinside ⟨e, hx⟩ hm hends).removeEdge hx hout)
  have hcycle : (g.removeEdge e).Connects n m := .trans _ _ _ hfirst hrest
  apply ha e x hx
  rcases hends with ⟨rfl, rfl⟩ | ⟨rfl, rfl⟩
  · exact hcycle
  · exact .symm _ _ hcycle

theorem unique_traverse : ∀ v ∈ g.traverse, ∀ e ∈ v.2, ∀ e' ∈ v.2, e = e' := by
  refine hg.walkFrom_induction (motive := fun _ visits => ∀ v ∈ visits, ∀ e ∈ v.2, ∀ e' ∈ v.2, e = e')
    (fun _ => nofun) ?_ (fun n hn => (hg.mem_nodes n).mp hn) nofun
  intro listed start r visits hc hmem hr _ _ ih v hv e he e' he'
  rcases List.mem_append.mp hv with hv | hv
  case inr => exact ih v hv e he e' he'
  cases hv
  case head => cases he
  case tail hv =>
    obtain ⟨_, hattached, heq⟩ := hg.attached_component v (hr ▸ hv)
    rw [heq] at he he'
    exact ha.unique_edgesTo hg hc hattached he he'

-- So all edges are first edges.
theorem edgeIds_subset : g.edgeIds ⊆ firstEdges g.traverse := by
  intro e he
  have ⟨x, hx⟩ := Option.isSome_iff_exists.mp (mem_edgeIds.mp he)
  have hne : x.source ≠ x.target := fun h => ha e x hx (h ▸ .refl _)
  have ⟨hs, ht⟩ := hg.ends e x hx
  have hlisting : ∀ n, g.contains n = true → n ∈ listing [] g.traverse :=
    fun n hn => hg.visits_traverse.2 n ((hg.mem_nodes n).mpr hn)
  obtain ⟨v, hv, he⟩ :=
    hg.visits_traverse.1.exists_visit hg hx hne (hlisting _ hs) (hlisting _ ht) (.inl List.not_mem_nil)
  refine mem_firstEdges.mpr ⟨v, hv, ?_⟩
  cases hes : v.2
  case nil => simp [hes] at he
  case cons e' es => rw [List.head?_cons, ha.unique_traverse hg v hv e he e' (by simp [hes])]

end Acyclic

namespace Linked

variable (hg : g.Linked)

include hg

theorem connected_iff : g.Connected ↔ (components g.traverse).length ≤ 1 := by
  have hstart := hg.component_traverse
  have hnodup := (List.nodup_flatten.mp (hg.perm_components.nodup_iff.mpr hg.nodup_nodes)).2
  have hmem : ∀ {part n}, part ∈ components g.traverse → n ∈ part → g.contains n = true := hg.contains_component
  constructor
  case mp =>
    intro hconnected
    rcases hparts : components g.traverse with _ | ⟨first, _ | ⟨second, rest⟩⟩
    case nil => simp
    case cons.nil => simp
    case cons.cons =>
      rw [hparts] at hstart hnodup hmem
      obtain ⟨n, hn, hfirst⟩ := hstart first (by simp)
      obtain ⟨m, hm, -⟩ := hstart second (by simp)
      have hin : m ∈ first := (hfirst m).mpr (hconnected n m (hmem (by simp) hn) (hmem (by simp) hm))
      exact absurd hm ((List.pairwise_cons.mp hnodup).1 second List.mem_cons_self hin)
  case mpr =>
    intro hlength n m hn hm
    obtain ⟨part, hpart, hn⟩ := hg.exists_component hn
    obtain ⟨part', hpart', hm⟩ := hg.exists_component hm
    have heq : part = part' := by
      obtain ⟨only, hparts⟩ := List.length_eq_one_iff.mp (Nat.le_antisymm hlength (List.length_pos_of_mem hpart))
      simp_all
    exact (hg.mem_component hpart hn).mp (heq ▸ hm)

theorem length_nodes : (components g.traverse).length + (firstEdges g.traverse).length = g.nodes.length := by
  have hlength := hg.perm_components.length_eq
  rw [flatten_components, List.length_map] at hlength
  rw [← hlength]
  exact length_components fun _ => head?_walkFrom

theorem length_firstEdges : (firstEdges g.traverse).length ≤ g.edgeIds.length :=
  (List.subperm_of_subset (hg.visits_traverse.1.nodup_firstEdges hg) hg.firstEdges_subset).length_le

-- A connected query has edges enough.
theorem hasCrossProduct_of_connected (h : g.Connected) : g.hasCrossProduct = false := by
  have hcomponents := hg.connected_iff.mp h
  have hnodes := hg.length_nodes
  have hedges := hg.length_firstEdges
  simp only [hasCrossProduct, decide_eq_false_iff_not]
  omega

end Linked

-- Without cycles it has no more than it needs.
theorem Acyclic.hasCrossProduct_iff (ha : g.Acyclic) (hg : g.Linked) : g.hasCrossProduct = true ↔ ¬g.Connected := by
  constructor
  case mp =>
    intro hcross hconnected
    simp [hg.hasCrossProduct_of_connected hconnected] at hcross
  case mpr =>
    intro hconnected
    rw [hg.connected_iff] at hconnected
    have hedges := (List.subperm_of_subset nodup_edgeIds (ha.edgeIds_subset hg)).length_le
    have hnodes := hg.length_nodes
    simp only [hasCrossProduct, decide_eq_true_eq]
    omega

end Subplans.QueryGraph
