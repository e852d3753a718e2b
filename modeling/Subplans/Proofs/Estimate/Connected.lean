import Subplans.Estimate.Basic
import Subplans.Proofs.Equalities.Printed
import Subplans.Proofs.Graph.CrossProduct
import Subplans.Proofs.Graph.Factors

/-!
Estimators are asked for connected queries.

The factors of a query are connected, if edges lead to virtual nodes only and those to one virtual node all refer to the
same columns of it (`connected_of_mem_factors`). A query that is not connected is split into them if it has no cycles
(`Estimator.asksOnly_connected`): edges that close a cycle hide that others are missing.
-/

namespace Subplans

open Closure Relation

namespace QueryGraph

variable {s : Schema} {g f : QueryGraph} {kept part : List Nat} {left : List Shared} {n m i : Nat} {x y : Edge}

-- Edges to a virtual node refer to the same columns of it.
def Uniform (s : Schema) (g : QueryGraph) : Prop :=
  ∀ x y, g.HasEdge x → g.HasEdge y → x.target = y.target → g.isVirtual x.target = true → referred s x = referred s y

namespace Selects

variable (h : Selects s g kept left f) (hwf : g.WellFormed) (hkept : ∀ n ∈ kept, n ∈ g.realNodes)

include h

-- Every node of a sub-query is a kept one or has an edge from one.
theorem connects_place (hnodup : kept.Nodup) (hi : f.contains i = true) : ∃ n ∈ kept, f.Connects i (kept.idxOf n) := by
  have hlt := h.contains_iff.mp hi
  by_cases hold : i < kept.length
  case pos => exact ⟨kept[i], List.getElem_mem hold, by rw [hnodup.idxOf_getElem]; exact .refl _⟩
  case neg =>
    have hget := List.getElem?_eq_getElem (l := left) (i := i - kept.length) (by omega)
    have ⟨y, hy⟩ := h.used _ (List.mem_of_getElem? hget)
    have hedge := (h.hasEdge _).mpr (.inr ⟨_, _, hget, y, hy, rfl⟩)
    have hconnects := connects_of_hasEdge hedge
    rw [Nat.add_sub_cancel' (Nat.not_lt.mp hold)] at hconnects
    exact ⟨y.source, hy.source, .symm _ _ hconnects⟩

include hwf hkept

theorem connects_hop (huniform : g.Uniform s) (hnm : Hop (· ∈ g.realNodes) g.Adjacent n m) (hn : n ∈ kept)
    (hm : m ∈ kept) : f.Connects (kept.idxOf n) (kept.idxOf m) := by
  obtain ⟨-, -, ⟨x, hx, rfl, rfl⟩ | ⟨c, hc, ⟨x, hx, rfl, rfl⟩, y, hy, rfl, heq⟩⟩ := hnm
  case inl => exact connects_of_hasEdge (h.stays hx hn hm)
  case inr =>
    have hvirtual := hwf.isVirtual_target hx hc
    by_cases hxy : x = y
    case pos => exact hxy ▸ .refl _
    case neg =>
      have hreferred := huniform x y hx hy heq.symm hvirtual
      obtain ⟨i, hedge, hedge'⟩ := h.meets hwf hkept hx hy hxy hn hm heq.symm hvirtual hreferred
      exact .trans _ _ _ (connects_of_hasEdge hedge) (.symm _ _ (connects_of_hasEdge hedge'))

-- A sub-query of connected nodes is connected, if no connection leads out of them.
theorem connected (hnodup : kept.Nodup) (hsunk : g.Sunk) (huniform : g.Uniform s)
    (hclosed : ∀ n m, g.Connects n m → m ∈ g.realNodes → n ∈ kept → m ∈ kept)
    (hconnects : ∀ n ∈ kept, ∀ m ∈ kept, g.Connects n m) : f.Connected := by
  intro i j hi hj
  obtain ⟨n, hn, hin⟩ := h.connects_place hnodup hi
  obtain ⟨m, hm, hjm⟩ := h.connects_place hnodup hj
  have hreal : ∀ n m, g.Adjacent n m → n ∈ g.realNodes := fun n m ⟨_, hx, hs, _⟩ => hs ▸ hsunk.real_source hwf hx
  have hnm : f.Connects (kept.idxOf n) (kept.idxOf m) :=
    eqvGen_kept id kept.idxOf hreal (fun _ _ => id) hkept hclosed (fun _ _ => h.connects_hop hwf hkept huniform) hn hm
      (hconnects n hn m hm)
  exact .trans _ _ _ hin (.trans _ _ _ hnm (.symm _ _ hjm))

end Selects

theorem connected_of_mem_factors (hg : g.WellFormed) (hsunk : g.Sunk) (huniform : g.Uniform s) (hf : f ∈ g.factors s) :
    f.Connected := by
  obtain ⟨part, hpart, -, rfl⟩ := mem_factors.mp hf
  have ⟨_, h⟩ := selects_subquery s hg (g.realPart part)
  refine h.connected hg (hg.keeping_realPart_sub hpart) (hg.nodup_nodes.filter _) hsunk huniform
    (fun _ _ => hg.keeping_realPart_closed hpart) ?_
  intro n hn m hm
  rw [hg.mem_keeping_realPart hpart] at hn hm
  exact (hg.linked.mem_component hpart hn.1).mp hm.1

end QueryGraph

namespace Estimator

open QueryGraph

variable {m : Type → Type} [Monad m] {e e' : Estimator m} {s : Schema} {g : QueryGraph} {P : QueryGraph → Prop}

-- The estimator is asked for queries with `P` only: what it answers for others makes no difference.
def AsksOnly (e : Estimator m) (s : Schema) (P : QueryGraph → Prop) (query : Option QueryGraph) : Prop :=
  ∀ e' : Estimator m, (∀ f, P f → e'.connected s f = e.connected s f) → e'.estimate s query = e.estimate s query

theorem estimateFactors_congr {factors : List QueryGraph} {product : Float}
    (h : ∀ f ∈ factors, e'.connected s f = e.connected s f) :
    e'.estimateFactors s product factors = e.estimateFactors s product factors := by
  induction factors generalizing product
  case nil => rfl
  case cons f rest ih =>
    have hrest : ∀ product, e'.estimateFactors s product rest = e.estimateFactors s product rest :=
      fun product => ih fun f hf => h f (List.mem_cons_of_mem _ hf)
    simp only [estimateFactors, h f List.mem_cons_self, hrest]

theorem asksOnly_connected (hg : g.WellFormed) (hsunk : g.Sunk) (huniform : g.Uniform s)
    (hshape : g.Connected ∨ g.Acyclic) (e : Estimator m) :
    e.AsksOnly s Connected (some g) ∧ (∀ f ∈ g.factors s, f.Connected) ∧
    (g.Connected → e.estimate s (some g) = e.connected s g) ∧
    (¬g.Connected → e.estimate s (some g) = e.estimateFactors s 1 (g.factors s)) := by
  have hfactors : ∀ f ∈ g.factors s, f.Connected := fun f => connected_of_mem_factors hg hsunk huniform
  have hconnected : ∀ e : Estimator m, g.Connected → e.estimate s (some g) = e.connected s g := by
    intro e h
    rw [estimate, hg.linked.hasCrossProduct_of_connected h]
    rfl
  have hsplit : ∀ e : Estimator m, ¬g.Connected → e.estimate s (some g) = e.estimateFactors s 1 (g.factors s) := by
    intro e h
    rw [estimate, ((hshape.resolve_left h).hasCrossProduct_iff hg.linked).mpr h]
    rfl
  refine ⟨fun e' hsame => ?_, hfactors, hconnected e, hsplit e⟩
  by_cases h : g.Connected
  case pos => rw [hconnected e' h, hconnected e h, hsame g h]
  case neg =>
    rw [hsplit e' h, hsplit e h]
    exact estimateFactors_congr fun f hf => hsame f (hfactors f hf)

-- A link that refers to a film, and an information.
def besideLink : QueryGraph :=
  filmGraph true [(0, 0)]

theorem hasEdge_besideLink {x : Edge} (hx : besideLink.HasEdge x) : x = ⟨0, 0, 2⟩ := by
  have hall : ∀ x ∈ besideLink.edges.filterMap id, x = ⟨0, 0, 2⟩ := by decide
  exact hall x (by simpa using hasEdge_iff_mem.mp hx)

theorem acyclic_besideLink : besideLink.Acyclic := by
  intro e x hx hconnects
  have hlength : besideLink.edges.length = 1 := by decide
  have hlt := lt_of_edge? hx
  obtain rfl : e = 0 := by omega
  have hedges : (besideLink.removeEdge 0).edges = [none] := by decide
  have hnone : ∀ n m, ¬(besideLink.removeEdge 0).Adjacent n m := by
    rintro n m ⟨y, hy, -⟩
    have hmem := hasEdge_iff_mem.mp hy
    simp [hedges] at hmem
  cases hasEdge_besideLink ⟨0, hx⟩
  cases (iff_eq hnone).mp hconnects

-- The information is asked for apart from the link.
theorem asksOnly_connected_besideLink : besideLink.WellFormed ∧ besideLink.Sunk ∧ besideLink.Uniform filmSchema ∧
    besideLink.Acyclic ∧ ∀ e : Estimator Id, e.AsksOnly filmSchema Connected (some besideLink) := by
  have hg : besideLink.WellFormed := wellFormed_filmGraph (by decide)
  have hsunk : besideLink.Sunk := by
    intro x hx
    rw [hasEdge_besideLink hx]
    decide
  have huniform : besideLink.Uniform filmSchema := by
    intro x y hx hy _ _
    rw [hasEdge_besideLink hx, hasEdge_besideLink hy]
  exact ⟨hg, hsunk, huniform, acyclic_besideLink,
    fun e => (asksOnly_connected hg hsunk huniform (.inr acyclic_besideLink) e).1⟩

-- A link that refers to a film twice, and an information. There are as many edges as three connected nodes need.
def besideLinks : QueryGraph :=
  filmGraph false [(0, 0), (0, 1)]

theorem not_connected_besideLinks : ¬besideLinks.Connected := by
  intro h
  have hg : besideLinks.WellFormed := wellFormed_filmGraph (by decide)
  have hclosed : ∀ n ∈ [1], besideLinks.Closed [1] n := by
    have hneighbors : besideLinks.neighbors 1 = [] := by decide
    simp [Closed, hneighbors]
  have hmem := (hg.linked.mem_listed hclosed (h 1 0 (by decide) (by decide))).mp (List.mem_singleton_self 1)
  cases List.mem_singleton.mp hmem

-- An estimator that answers for connected queries only fails.
theorem not_asksOnly_besideLinks : besideLinks.WellFormed ∧ besideLinks.Sunk ∧ besideLinks.Uniform filmSchema ∧
    ¬besideLinks.Connected ∧
    ¬∀ e : Estimator Id, e.AsksOnly filmSchema Connected (some besideLinks) := by
  have hsunk : besideLinks.Sunk := by
    have hall : ∀ x ∈ besideLinks.edges.filterMap id, besideLinks.isVirtual x.source = false := by decide
    exact fun x hx => hall x (by simpa using hasEdge_iff_mem.mp hx)
  have huniform : besideLinks.Uniform filmSchema := by
    have hall : ∀ x ∈ besideLinks.edges.filterMap id, besideLinks.isVirtual x.target = false := by decide
    intro x y hx _ _ hv
    simp [hall x (by simpa using hasEdge_iff_mem.mp hx)] at hv
  refine ⟨wellFormed_filmGraph (by decide), hsunk, huniform, not_connected_besideLinks, fun h => ?_⟩
  classical
  let answers : Estimator Id := ⟨fun _ _ => pure 1⟩
  let refuses : Estimator Id := ⟨fun _ g => if g.Connected then pure 1 else throw .timeout⟩
  have hsame := h answers refuses fun f hf => if_pos hf
  have hwhole : ∀ e : Estimator Id, e.estimate filmSchema (some besideLinks) = e.connected filmSchema besideLinks := by
    intro e
    have hcross : besideLinks.hasCrossProduct = false := by decide
    rw [estimate, hcross]
    rfl
  rw [hwhole, hwhole] at hsame
  have hrefused : refuses.connected filmSchema besideLinks = throw .timeout := if_neg not_connected_besideLinks
  rw [hrefused] at hsame
  cases hsame

end Estimator

end Subplans
