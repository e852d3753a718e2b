import Mathlib.Data.List.Perm.Basic
import Subplans.Proofs.Graph.Components
import Subplans.Proofs.Graph.Subquery
import Subplans.Proofs.Merge.Roles

/-!
The factors of a query.

A factor is the sub-query over the nodes of a component that are not virtual. Factors have these nodes once between
them, and force no more than the graph does (`factors_split`). They force all of it if no join runs through more than
one virtual node (`Shallow`). Where one does it is lost (`not_complete_joinedThroughTwo`).
-/

namespace Subplans.QueryGraph

open Closure Relation

variable {s : Schema} {g f : QueryGraph} {kept selected part : List Nat} {left : List Shared} {n m i : Nat} {x y : Edge}
  {p q u v : Slot}

namespace Selects

-- The node of the graph that a node of the sub-query stands for.
def origin (kept : List Nat) (left : List Shared) (i : Nat) : Nat :=
  (kept ++ left.map Shared.node).getD i 0

theorem origin_kept (h : kept[i]? = some n) : origin kept left i = n := by
  have hlt := (List.getElem?_eq_some_iff.mp h).1
  rw [origin, List.getD_eq_getElem?_getD, List.getElem?_append_left hlt, h, Option.getD_some]

theorem getElem?_place (hn : n ∈ kept) : kept[kept.idxOf n]? = some n := by
  have hlt := List.idxOf_lt_length_iff.mpr hn
  rw [List.getElem?_eq_getElem hlt, List.getElem_idxOf]

theorem origin_place (hn : n ∈ kept) : origin kept left (kept.idxOf n) = n :=
  origin_kept (getElem?_place hn)

theorem origin_left {h : Shared} (hh : left[i]? = some h) : origin kept left (kept.length + i) = h.node := by
  rw [origin, List.getD_eq_getElem?_getD, List.getElem?_append_right (Nat.le_add_right _ _)]
  simp [hh]

variable (h : Selects s g kept left f)

include h

theorem contains_iff : f.contains i = true ↔ i < kept.length + left.length :=
  contains_iff_lt h.wellFormed h.nodes

-- Every edge of the sub-query stands for one of the graph.
theorem hasEdge_origin (hx : f.HasEdge x) : g.HasEdge (x.map (origin kept left)) := by
  rcases (h.hasEdge x).mp hx with ⟨y, hy, hs, ht, rfl⟩ | ⟨i, l, hl, y, hy, rfl⟩
  · have heq : (y.map kept.idxOf).map (origin kept left) = y := by
      simp [Edge.map, origin_place hs, origin_place ht]
    rwa [heq]
  · have hnode : l.node = y.target := congrArg Prod.fst hy.mark
    have heq : (Edge.mk (kept.idxOf y.source) y.key (kept.length + i)).map (origin kept left) = y := by
      simp [Edge.map, origin_place hy.source, origin_left hl, hnode]
    rw [heq]
    exact hy.hasEdge

-- So the sub-query forces nothing that the graph does not.
theorem forces_origin (hpq : f.Forces s p q) : g.Forces s (p.map (origin kept left)) (q.map (origin kept left)) := by
  refine map (Slot.map (origin kept left)) ?_ hpq
  rintro p q ⟨x, hx, hs, ht, hpair⟩
  exact .rel _ _ ⟨_, h.hasEdge_origin hx, congrArg (origin kept left) hs, congrArg (origin kept left) ht, hpair⟩

section Real

variable (hg : g.WellFormed) (hkept : ∀ n ∈ kept, n ∈ g.realNodes)

include hkept

theorem isVirtual_kept (hg : g.WellFormed) (hi : i < kept.length) : f.isVirtual i = false := by
  have ⟨hc, hv⟩ := hg.mem_realNodes.mp (hkept _ (List.getElem_mem hi))
  rw [isVirtual, (h.node i _ (List.getElem?_eq_getElem hi)).1, Option.any_some, ← isVirtual_eq, hv]

include hg

-- The nodes that are not virtual are the kept ones.
theorem realNodes : f.realNodes = List.range kept.length := by
  have hfresh : ∀ i < left.length, f.isVirtual (kept.length + i) = true := by
    intro i hi
    rw [isVirtual, h.fresh i _ (List.getElem?_eq_getElem hi), Option.any_some]
    rfl
  rw [QueryGraph.realNodes, h.nodes, List.range_add, List.filter_append]
  have hfirst : (List.range kept.length).filter (!f.isVirtual ·) = List.range kept.length := by
    refine List.filter_eq_self.mpr fun i hi => ?_
    rw [h.isVirtual_kept hkept hg (List.mem_range.mp hi), Bool.not_false]
  have hlast : ((List.range left.length).map (kept.length + ·)).filter (!f.isVirtual ·) = [] := by
    refine List.filter_eq_nil_iff.mpr fun i hi => ?_
    obtain ⟨j, hj, rfl⟩ := List.mem_map.mp hi
    simp [hfresh j (List.mem_range.mp hj)]
  rw [hfirst, hlast, List.append_nil]

theorem occurrences : f.occurrences = kept.map fun n => (g.aliasName n, g.node n) := by
  rw [QueryGraph.occurrences, h.realNodes hg hkept]
  refine List.ext_getElem (by simp) fun i _ hi => ?_
  have hi : i < kept.length := by simpa using hi
  obtain ⟨hnode, halias⟩ := h.node i _ (List.getElem?_eq_getElem hi)
  simp [QueryGraph.node, hnode, halias]

theorem lt_of_real (hu : f.Real u) : u.node < kept.length := by
  rw [Real, h.realNodes hg hkept] at hu
  exact List.mem_range.mp hu

-- The slot of the graph is the one with the same label.
theorem slotOf_label (hu : f.Real u) : g.slotOf (f.label u) = u.map (origin kept left) := by
  have hlt := h.lt_of_real hg hkept hu
  have hget := List.getElem?_eq_getElem hlt
  have ⟨hc, _⟩ := hg.mem_realNodes.mp (hkept _ (List.getElem_mem hlt))
  have halias := (hg.byAlias _ _).mpr ⟨hc, rfl⟩
  simp [slotOf, label, Slot.map, (h.node _ _ hget).2, halias, origin_kept hget]

theorem origin_mem (hu : f.Real u) : origin kept left u.node ∈ kept := by
  have hlt := h.lt_of_real hg hkept hu
  rw [origin_kept (List.getElem?_eq_getElem hlt)]
  exact List.getElem_mem hlt

theorem place_origin (hnodup : kept.Nodup) (hu : f.Real u) : (u.map (origin kept left)).map kept.idxOf = u := by
  have hlt := h.lt_of_real hg hkept hu
  simp [Slot.map, origin_kept (List.getElem?_eq_getElem hlt), hnodup.idxOf_getElem]

end Real

end Selects

-- No edge leaves a virtual node.
def Sunk (g : QueryGraph) : Prop :=
  ∀ x, g.HasEdge x → g.isVirtual x.source = false

-- No join runs through more than one virtual node: no edge leaves one, and edges that refer to one column of it refer
-- to all columns alike, from one column each.
structure Shallow (s : Schema) (g : QueryGraph) : Prop where
  sunk  : g.Sunk
  alike : ∀ x y, g.HasEdge x → g.HasEdge y → x.target = y.target → g.isVirtual x.target = true →
    ∀ c c' d, (c, d) ∈ (s.key x.key).pairs → (c', d) ∈ (s.key y.key).pairs → referred s x = referred s y
  once  : ∀ x, g.HasEdge x → g.isVirtual x.target = true →
    ∀ c c' d, (c, d) ∈ (s.key x.key).pairs → (c', d) ∈ (s.key x.key).pairs → c = c'

-- Keys of one pair refer to one column.
theorem Sunk.shallow (hg : g.Sunk) (hk : ∀ x, g.HasEdge x → ∃ c d, (s.key x.key).pairs = [(c, d)]) : g.Shallow s where
  sunk := hg
  alike x y hx hy _ _ c c' d hc hc' := by
    obtain ⟨a, b, hab⟩ := hk x hx
    obtain ⟨a', b', hab'⟩ := hk y hy
    rw [hab, List.mem_singleton] at hc
    rw [hab', List.mem_singleton] at hc'
    cases hc
    cases hc'
    rw [referred, referred, hab, hab']
    rfl
  once x hx _ c c' d hc hc' := by
    obtain ⟨a, b, hab⟩ := hk x hx
    rw [hab, List.mem_singleton] at hc hc'
    cases hc
    cases hc'
    rfl

theorem Tidy.shallow (hg : g.Tidy s) (hsunk : g.Sunk) : g.Shallow s := by
  refine hsunk.shallow fun x hx => ?_
  have ⟨c, d, hk⟩ := hg.proper x hx
  exact ⟨c, d, hk.pairs⟩

theorem Sunk.real_source (hg : g.Sunk) (hwf : g.WellFormed) (hx : g.HasEdge x) : x.source ∈ g.realNodes :=
  hwf.mem_realNodes.mpr ⟨hwf.contains_source hx, hg x hx⟩

theorem Relates.adjacent (h : g.Relates s p q) : g.Adjacent p.node q.node := by
  obtain ⟨x, hx, hs, ht, -⟩ := h
  exact ⟨x, hx, hs, ht⟩

theorem Adjacent.connects (h : g.Adjacent n m) : g.Connects n m :=
  .rel _ _ h

-- Chains of steps along edges are found again among the kept nodes, if their steps between nodes that are not virtual
-- and those over one that is virtual are.
theorem eqvGen_kept {α β : Type} {A : α → α → Prop} {B : β → β → Prop} {a b : α} (node : α → Nat) (place : α → β)
    (hreal : ∀ a b, A a b → node a ∈ g.realNodes) (hadjacent : ∀ a b, A a b → g.Adjacent (node a) (node b))
    (hkept : ∀ n ∈ kept, n ∈ g.realNodes) (hclosed : ∀ n m, g.Connects n m → m ∈ g.realNodes → n ∈ kept → m ∈ kept)
    (hhop : ∀ a b, Hop (node · ∈ g.realNodes) A a b → node a ∈ kept → node b ∈ kept → EqvGen B (place a) (place b))
    (ha : node a ∈ kept) (hb : node b ∈ kept) (hab : EqvGen A a b) : EqvGen B (place a) (place b) := by
  have hstay : ∀ a b, Hop (node · ∈ g.realNodes) A a b → (node a ∈ kept ↔ node b ∈ kept) := by
    intro a b ⟨ha, hb, hab⟩
    have hconnects : g.Connects (node a) (node b) := by
      rcases hab with hab | ⟨c, -, hac, hbc⟩
      case inl => exact (hadjacent a b hab).connects
      case inr => exact .trans _ _ _ (hadjacent a c hac).connects (.symm _ _ (hadjacent b c hbc).connects)
    exact ⟨hclosed _ _ hconnects hb, hclosed _ _ (.symm _ _ hconnects) ha⟩
  have hhops := within hstay ha (hops hreal (hkept _ ha) (hkept _ hb) hab)
  exact map place (fun a b hab => hhop a b hab.1 hab.2.1 hab.2.2) hhops

namespace Selects

variable (h : Selects s g kept left f)

include h

theorem stays (hx : g.HasEdge x) (hs : x.source ∈ kept) (ht : x.target ∈ kept) : f.HasEdge (x.map kept.idxOf) :=
  (h.hasEdge _).mpr (.inl ⟨x, hx, hs, ht, rfl⟩)

-- Two edges to the same columns of a virtual node lead to one node of the sub-query.
theorem meets (hwf : g.WellFormed) (hkept : ∀ n ∈ kept, n ∈ g.realNodes) (hx : g.HasEdge x) (hy : g.HasEdge y)
    (hne : x ≠ y) (hs : x.source ∈ kept) (hs' : y.source ∈ kept) (heq : x.target = y.target)
    (hv : g.isVirtual x.target = true) (hreferred : referred s x = referred s y) :
    ∃ i, f.HasEdge ⟨kept.idxOf x.source, x.key, i⟩ ∧ f.HasEdge ⟨kept.idxOf y.source, y.key, i⟩ := by
  have hout : x.target ∉ kept := fun hin => by simp [(hwf.mem_realNodes.mp (hkept _ hin)).2] at hv
  obtain ⟨i, l, hl, hleaves, hleaves'⟩ := h.shared x y hx hy hne hs hs' heq hout hreferred
  exact ⟨kept.length + i, (h.hasEdge _).mpr (.inr ⟨i, l, hl, x, hleaves, rfl⟩),
    (h.hasEdge _).mpr (.inr ⟨i, l, hl, y, hleaves', rfl⟩)⟩

end Selects

theorem WellFormed.isVirtual_target (hwf : g.WellFormed) (hx : g.HasEdge x) (ht : x.target ∉ g.realNodes) :
    g.isVirtual x.target = true := by
  rw [hwf.mem_realNodes, not_and, Bool.not_eq_false] at ht
  exact ht (hwf.contains_target hx)

namespace Shallow

variable (hg : g.Shallow s) (hwf : g.WellFormed) (h : Selects s g kept left f) (hkept : ∀ n ∈ kept, n ∈ g.realNodes)

include hg hwf h hkept

theorem forces_hop (hpq : Hop g.Real (g.Relates s) p q) (hp : p.node ∈ kept) (hq : q.node ∈ kept) :
    f.Forces s (p.map kept.idxOf) (q.map kept.idxOf) := by
  obtain ⟨-, -, ⟨x, hx, hs, ht, hpair⟩ | ⟨c, hc, ⟨x, hx, hs, ht, hpair⟩, y, hy, hs', ht', hpair'⟩⟩ := hpq
  case inl =>
    have hedge := h.stays hx (hs ▸ hp) (ht ▸ hq)
    exact .rel _ _ ⟨_, hedge, congrArg kept.idxOf hs, congrArg kept.idxOf ht, hpair⟩
  case inr =>
    have hvirtual := hwf.isVirtual_target hx (ht ▸ hc)
    by_cases hxy : x = y
    case pos =>
      subst hxy
      have hnode : p.node = q.node := hs.symm.trans hs'
      have hcolumn : p.column = q.column := hg.once x hx hvirtual _ _ _ hpair hpair'
      rw [Slot.map, Slot.map, hnode, hcolumn]
      exact .refl _
    case neg =>
      have htarget := ht.trans ht'.symm
      have hreferred := hg.alike x y hx hy htarget hvirtual _ _ _ hpair hpair'
      obtain ⟨i, hedge, hedge'⟩ :=
        h.meets hwf hkept hx hy hxy (hs ▸ hp) (hs' ▸ hq) htarget hvirtual hreferred
      have hrel : f.Relates s (p.map kept.idxOf) ⟨i, c.column⟩ := ⟨_, hedge, congrArg kept.idxOf hs, rfl, hpair⟩
      have hrel' : f.Relates s (q.map kept.idxOf) ⟨i, c.column⟩ := ⟨_, hedge', congrArg kept.idxOf hs', rfl, hpair'⟩
      exact .trans _ _ _ (.rel _ _ hrel) (.symm _ _ (.rel _ _ hrel'))

-- A sub-query forces all between its nodes that the graph does, if no connection leads out of them.
theorem forces_selects (hnodup : kept.Nodup)
    (hclosed : ∀ n m, g.Connects n m → m ∈ g.realNodes → n ∈ kept → m ∈ kept) (hu : f.Real u) (hv : f.Real v)
    (huv : g.Forces s (u.map (Selects.origin kept left)) (v.map (Selects.origin kept left))) : f.Forces s u v := by
  have hreal : ∀ p q, g.Relates s p q → p.node ∈ g.realNodes :=
    fun p q ⟨_, hx, hs, _⟩ => hs ▸ hg.sunk.real_source hwf hx
  have hforces := eqvGen_kept Slot.node (Slot.map kept.idxOf) hreal (fun _ _ => Relates.adjacent) hkept hclosed
    (fun _ _ => hg.forces_hop hwf h hkept) (h.origin_mem hwf hkept hu) (h.origin_mem hwf hkept hv) huv
  rwa [h.place_origin hwf hkept hnodup hu, h.place_origin hwf hkept hnodup hv] at hforces

end Shallow

-- The nodes of a component that are not virtual.
def realPart (g : QueryGraph) (part : List Nat) : List Nat :=
  part.filter (!g.isVirtual ·)

theorem mem_realPart : n ∈ g.realPart part ↔ n ∈ part ∧ g.isVirtual n = false := by
  simp [realPart]

theorem factors_eq : g.factors s = (((components g.traverse).map g.realPart).filter (!·.isEmpty)).map (g.subquery s) :=
  rfl

theorem mem_factors : f ∈ g.factors s ↔
    ∃ part ∈ components g.traverse, g.realPart part ≠ [] ∧ f = g.subquery s (g.realPart part) := by
  simp only [factors_eq, List.mem_map, List.mem_filter, Bool.not_eq_true', List.isEmpty_eq_false_iff]
  constructor
  · rintro ⟨_, ⟨⟨part, hpart, rfl⟩, hne⟩, rfl⟩
    exact ⟨part, hpart, hne, rfl⟩
  · rintro ⟨part, hpart, hne, rfl⟩
    exact ⟨_, ⟨⟨part, hpart, rfl⟩, hne⟩, rfl⟩

namespace WellFormed

variable (hg : g.WellFormed) (hpart : part ∈ components g.traverse)

include hg

theorem nodup_component (hpart : part ∈ components g.traverse) : part.Nodup :=
  (List.nodup_flatten.mp (hg.linked.perm_components.nodup_iff.mpr hg.nodup_nodes)).1 part hpart

include hpart

theorem mem_keeping_realPart : n ∈ g.keeping (g.realPart part) ↔ n ∈ part ∧ g.isVirtual n = false := by
  rw [mem_keeping hg.linked, mem_realPart, and_iff_right_of_imp fun h => hg.linked.contains_component hpart h.1]

theorem keeping_realPart_sub : ∀ n ∈ g.keeping (g.realPart part), n ∈ g.realNodes := by
  intro n hn
  have ⟨hin, hreal⟩ := (hg.mem_keeping_realPart hpart).mp hn
  exact hg.mem_realNodes.mpr ⟨hg.linked.contains_component hpart hin, hreal⟩

theorem perm_keeping_realPart : (g.keeping (g.realPart part)).Perm (g.realPart part) := by
  have hnodup : (g.keeping (g.realPart part)).Nodup := hg.nodup_nodes.filter _
  have hnodup' : (g.realPart part).Nodup := (hg.nodup_component hpart).filter _
  rw [List.perm_ext_iff_of_nodup hnodup hnodup']
  intro n
  rw [hg.mem_keeping_realPart hpart, mem_realPart]

-- No connection leads from the nodes of a component to others.
theorem keeping_realPart_closed (h : g.Connects n m) (hm : m ∈ g.realNodes) (hn : n ∈ g.keeping (g.realPart part)) :
    m ∈ g.keeping (g.realPart part) := by
  rw [hg.mem_keeping_realPart hpart] at hn ⊢
  exact ⟨(hg.linked.mem_component hpart hn.1).mpr h, (hg.mem_realNodes.mp hm).2⟩

theorem occurrences_factor : (g.subquery s (g.realPart part)).occurrences =
    (g.keeping (g.realPart part)).map fun n => (g.aliasName n, g.node n) := by
  have ⟨left, h⟩ := selects_subquery s hg (g.realPart part)
  exact h.occurrences hg (hg.keeping_realPart_sub hpart)

end WellFormed

-- The node is in the graph under its alias.
def Has (f g : QueryGraph) (n : Nat) : Prop :=
  (g.aliasName n, g.node n) ∈ f.occurrences

-- The graphs are a partition of the query into what is connected, and force nothing else between its nodes.
structure Split (s : Schema) (g : QueryGraph) (fs : List QueryGraph) : Prop where
  wellFormed  : ∀ f ∈ fs, f.WellFormed
  occurrences : (fs.flatMap occurrences).Perm g.occurrences
  together    : ∀ n ∈ g.realNodes, ∀ m ∈ g.realNodes, (∃ f ∈ fs, f.Has g n ∧ f.Has g m) ↔ g.Connects n m
  sound       : ∀ f ∈ fs, ∀ p q, f.Real p → f.Real q → f.Forces s p q →
    g.Forces s (g.slotOf (f.label p)) (g.slotOf (f.label q))

-- The graphs force all that the query does.
def Complete (s : Schema) (g : QueryGraph) (fs : List QueryGraph) : Prop :=
  ∀ f ∈ fs, ∀ p q, f.Real p → f.Real q → g.Forces s (g.slotOf (f.label p)) (g.slotOf (f.label q)) → f.Forces s p q

theorem perm_occurrences (hg : g.WellFormed) : ((g.factors s).flatMap occurrences).Perm g.occurrences := by
  set parts := (components g.traverse).map g.realPart with hparts
  have hsame : ∀ part ∈ parts.filter (!·.isEmpty),
      (g.subquery s part).occurrences.Perm (part.map fun n => (g.aliasName n, g.node n)) := by
    intro part hpart
    obtain ⟨whole, hwhole, rfl⟩ := List.mem_map.mp (List.mem_filter.mp hpart).1
    rw [hg.occurrences_factor hwhole]
    exact (hg.perm_keeping_realPart hwhole).map _
  have hflatten : parts.flatten.Perm g.realNodes := by
    have hfilter : parts.flatten = (components g.traverse).flatten.filter (!g.isVirtual ·) := List.filter_flatten.symm
    rw [hfilter]
    exact hg.linked.perm_components.filter _
  rw [factors_eq, List.flatMap_map]
  refine (List.Perm.flatMap_left _ hsame).trans ?_
  rw [List.flatMap_def, ← List.map_flatten, List.flatten_filter_not_isEmpty]
  exact hflatten.map _

theorem has_factor_iff (hg : g.WellFormed) (hpart : part ∈ components g.traverse) (hn : n ∈ g.realNodes) :
    (g.subquery s (g.realPart part)).Has g n ↔ n ∈ part := by
  have ⟨hc, hv⟩ := hg.mem_realNodes.mp hn
  rw [Has, hg.occurrences_factor hpart, List.mem_map]
  constructor
  · rintro ⟨m, hm, heq⟩
    have hreal := hg.mem_realNodes.mp (hg.keeping_realPart_sub hpart m hm)
    cases hg.aliasName_inj hreal.1 hc (congrArg Prod.fst heq)
    exact ((hg.mem_keeping_realPart hpart).mp hm).1
  · exact fun hn => ⟨n, (hg.mem_keeping_realPart hpart).mpr ⟨hn, hv⟩, rfl⟩

theorem split_factors (hg : g.WellFormed) : Split s g (g.factors s) := by
  constructor
  case wellFormed =>
    intro f hf
    obtain ⟨part, -, -, rfl⟩ := mem_factors.mp hf
    have ⟨_, h⟩ := selects_subquery s hg (g.realPart part)
    exact h.wellFormed
  case occurrences => exact perm_occurrences hg
  case together =>
    intro n hn m hm
    have ⟨hc, hv⟩ := hg.mem_realNodes.mp hn
    constructor
    · rintro ⟨f, hf, hfn, hfm⟩
      obtain ⟨part, hpart, -, rfl⟩ := mem_factors.mp hf
      rw [has_factor_iff hg hpart hn] at hfn
      rw [has_factor_iff hg hpart hm] at hfm
      exact (hg.linked.mem_component hpart hfn).mp hfm
    · intro hconnects
      have ⟨part, hpart, hin⟩ := hg.linked.exists_component hc
      have hin' := (hg.linked.mem_component hpart hin).mpr hconnects
      have hne : g.realPart part ≠ [] := List.ne_nil_of_mem (mem_realPart.mpr ⟨hin, hv⟩)
      refine ⟨_, mem_factors.mpr ⟨part, hpart, hne, rfl⟩, ?_, ?_⟩
      · exact (has_factor_iff hg hpart hn).mpr hin
      · exact (has_factor_iff hg hpart hm).mpr hin'
  case sound =>
    intro f hf p q hp hq hpq
    obtain ⟨part, hpart, -, rfl⟩ := mem_factors.mp hf
    have ⟨_, h⟩ := selects_subquery s hg (g.realPart part)
    have hkept := hg.keeping_realPart_sub hpart
    rw [h.slotOf_label hg hkept hp, h.slotOf_label hg hkept hq]
    exact h.forces_origin hpq

-- Factors force just what the query does, unless joins run through more than one virtual node.
theorem factors_split (hg : g.WellFormed) : Split s g (g.factors s) ∧ (g.Shallow s → Complete s g (g.factors s)) := by
  refine ⟨split_factors hg, fun hshallow f hf p q hp hq hpq => ?_⟩
  obtain ⟨part, hpart, -, rfl⟩ := mem_factors.mp hf
  have ⟨_, h⟩ := selects_subquery s hg (g.realPart part)
  have hkept := hg.keeping_realPart_sub hpart
  rw [h.slotOf_label hg hkept hp, h.slotOf_label hg hkept hq] at hpq
  have hclosed := fun n m => hg.keeping_realPart_closed (n := n) (m := m) hpart
  exact hshallow.forces_selects hg h hkept (hg.nodup_nodes.filter _) hclosed hp hq hpq

-- A link and an information about the same film, and another information that is about any.
def besideFilm : QueryGraph :=
  merge filmsSchema sameFilm (alone 2 "mj") []

theorem factors_split_besideFilm : besideFilm.WellFormed ∧ besideFilm.Shallow filmsSchema ∧
    Split filmsSchema besideFilm (besideFilm.factors filmsSchema) ∧
    Complete filmsSchema besideFilm (besideFilm.factors filmsSchema) := by
  have hd : Schema.ofDescription films = .ok filmsSchema := rfl
  have hbuilt : Built filmsSchema besideFilm := .merge built_sameFilm built_alone (by simp)
  have htidy : besideFilm.Tidy filmsSchema := hbuilt.tidy (Schema.loaded_of_ofDescription hd) (by decide +kernel)
  have hsources : ∀ x ∈ besideFilm.edges.filterMap id, besideFilm.isVirtual x.source = false := by decide +kernel
  have hsunk : besideFilm.Sunk := by
    intro x hx
    exact hsources x (by simpa using hasEdge_iff_mem.mp hx)
  have hshallow := htidy.shallow hsunk
  have ⟨hsplit, hcomplete⟩ := factors_split (s := filmsSchema) htidy.wellFormed
  exact ⟨htidy.wellFormed, hshallow, hsplit, hcomplete hshallow⟩

-- Two tables that are joined through two virtual ones.
def joinedThroughTwo : QueryGraph :=
  merge chainSchema (alone 0 "a1") (alone 3 "d1")
    [⟨0, [.join 0 true, .table 1, .join 1 true, .table 2, .join 2 false], 0⟩]

theorem built_joinedThroughTwo : Built chainSchema joinedThroughTwo := by
  have hjoin : resolve chainSchema (alone 0 "a1") (alone 3 "d1") ("a1", "b_id") ("d1", "c_id") =
      .join ⟨0, [.join 0 true, .table 1, .join 1 true, .table 2, .join 2 false], 0⟩ := by
    decide +kernel
  exact .merge built_alone built_alone (by simpa using ⟨_, _, hjoin⟩)

-- The sub-query over the two tables.
def unjoinedTables : QueryGraph :=
  joinedThroughTwo.subquery chainSchema [0, 1]

theorem relations_joinedThroughTwo :
    joinedThroughTwo.relations chainSchema =
      [(⟨0, ⟨0, 0⟩⟩, ⟨2, ⟨1, 0⟩⟩), (⟨2, ⟨1, 0⟩⟩, ⟨3, ⟨2, 0⟩⟩), (⟨1, ⟨3, 0⟩⟩, ⟨3, ⟨2, 0⟩⟩)] ∧
    unjoinedTables.relations chainSchema = [] := by
  decide +kernel

theorem forces_joinedThroughTwo : joinedThroughTwo.Forces chainSchema ⟨0, ⟨0, 0⟩⟩ ⟨1, ⟨3, 0⟩⟩ := by
  have hstep : ∀ {p q}, (p, q) ∈ joinedThroughTwo.relations chainSchema → joinedThroughTwo.Forces chainSchema p q :=
    forces_of_mem_relations
  rw [relations_joinedThroughTwo.1] at hstep
  have hfirst : joinedThroughTwo.Forces chainSchema ⟨0, ⟨0, 0⟩⟩ ⟨2, ⟨1, 0⟩⟩ := hstep (by simp)
  have hmiddle : joinedThroughTwo.Forces chainSchema ⟨2, ⟨1, 0⟩⟩ ⟨3, ⟨2, 0⟩⟩ := hstep (by simp)
  have hlast : joinedThroughTwo.Forces chainSchema ⟨1, ⟨3, 0⟩⟩ ⟨3, ⟨2, 0⟩⟩ := hstep (by simp)
  exact .trans _ _ _ hfirst (.trans _ _ _ hmiddle (.symm _ _ hlast))

theorem factors_joinedThroughTwo : joinedThroughTwo.factors chainSchema = [unjoinedTables] := by
  have hnodes : joinedThroughTwo.nodes = [0, 1, 2, 3] := by decide +kernel
  have hlength : joinedThroughTwo.slots.length = 4 := by decide +kernel
  have hneighbors : joinedThroughTwo.neighbors 0 = [2] ∧ joinedThroughTwo.neighbors 1 = [3] ∧
      joinedThroughTwo.neighbors 2 = [3, 0] ∧ joinedThroughTwo.neighbors 3 = [2, 1] := by
    decide +kernel
  have hedges : joinedThroughTwo.edgesTo [0] 2 = [0] ∧ joinedThroughTwo.edgesTo [2, 0] 3 = [1] ∧
      joinedThroughTwo.edgesTo [3, 2, 0] 1 = [2] := by
    decide +kernel
  have htraverse : joinedThroughTwo.traverse = [(0, []), (2, [0]), (3, [1]), (1, [2])] := by
    simp [traverse, walkFrom, walk, hnodes, hlength, hneighbors, hedges]
  have hparts : ((components [(0, []), (2, [0]), (3, [1]), (1, [2])]).map joinedThroughTwo.realPart).filter
      (!·.isEmpty) = [[0, 1]] := by
    decide +kernel
  rw [factors_eq, htraverse, hparts]
  rfl

-- The factor has both tables, and no join of them.
theorem not_complete_joinedThroughTwo : Schema.ofDescription chain = .ok chainSchema ∧
    Built chainSchema joinedThroughTwo ∧
    ¬Complete chainSchema joinedThroughTwo (joinedThroughTwo.factors chainSchema) := by
  refine ⟨rfl, built_joinedThroughTwo, fun hcomplete => ?_⟩
  rw [factors_joinedThroughTwo] at hcomplete
  have hfirst : joinedThroughTwo.slotOf (unjoinedTables.label ⟨0, ⟨0, 0⟩⟩) = ⟨0, ⟨0, 0⟩⟩ := by decide +kernel
  have hsecond : joinedThroughTwo.slotOf (unjoinedTables.label ⟨1, ⟨3, 0⟩⟩) = ⟨1, ⟨3, 0⟩⟩ := by decide +kernel
  have hreal : unjoinedTables.Real ⟨0, ⟨0, 0⟩⟩ ∧ unjoinedTables.Real ⟨1, ⟨3, 0⟩⟩ := by decide +kernel
  have hforces := hcomplete _ (List.mem_singleton_self _) _ _ hreal.1 hreal.2
  rw [hfirst, hsecond] at hforces
  have hunrelated : ∀ p q, ¬unjoinedTables.Relates chainSchema p q := by
    intro p q hpq
    simpa [relations_joinedThroughTwo.2] using relates_iff_mem.mp hpq
  cases (Closure.iff_eq hunrelated).mp (hforces forces_joinedThroughTwo)

end Subplans.QueryGraph
