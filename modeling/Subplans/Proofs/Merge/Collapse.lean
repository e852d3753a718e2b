import Subplans.Proofs.Merge.Folding
import Subplans.Proofs.Merge.Redundancy

/-!
Virtual nodes are made one.

Two nodes at the ends of edges of one key, whose other ends are the same node, have to be equal in the column
of the key. Where one of them is virtual it uses no other column, so the graph without it folds the graph with
it (`Redundancy.folding`), and so does the graph after any number of such steps (`folding_mergeVirtual`).
-/

namespace Subplans

open Closure Relation

namespace QueryGraph

variable {s : Schema} {g g' : QueryGraph} {n k id added added' first second : Nat} {x e : Edge}
  {p : Slot} {r : Redundancy}

-- The dropped node is virtual, and in the one column that it uses it has to equal the node that is kept.
structure Redundancy.Sound (s : Schema) (g : QueryGraph) (first second : Nat) (r : Redundancy) : Prop where
  virtual : g.isVirtual r.drop = true
  keep    : g.contains r.keep = true
  glue    : ∃ c, g.Uses s ⟨r.keep, c⟩ ∧ g.Uses s ⟨r.drop, c⟩ ∧ g.Forces s ⟨r.drop, c⟩ ⟨r.keep, c⟩
  first   : rename r.drop r.keep first = r.first
  second  : rename r.drop r.keep second = r.second

theorem Redundant.sound (hg : g.Tidy s) (he : g.HasEdge e) (hx : g.HasEdge x) (hk : e.key = x.key)
    (h : g.Redundant x.source x.target e r) : r.Sound s g x.source x.target := by
  have ⟨u, v, hp⟩ := hg.proper x hx
  have hpe : IsProper s e.key u v := hk ▸ hp
  have hre := hpe.relates he
  have hrx := hp.relates hx
  have hglue : ∃ c, g.Uses s ⟨r.keep, c⟩ ∧ g.Uses s ⟨r.drop, c⟩ ∧ g.Forces s ⟨r.drop, c⟩ ⟨r.keep, c⟩ := by
    cases h
    case oldTarget hs _ =>
      rw [hs] at hre
      exact ⟨v, ⟨_, .inr hrx⟩, ⟨_, .inr hre⟩, .trans _ _ _ (.symm _ _ (.rel _ _ hre)) (.rel _ _ hrx)⟩
    case newTarget hs _ =>
      rw [hs] at hre
      exact ⟨v, ⟨_, .inr hre⟩, ⟨_, .inr hrx⟩, .trans _ _ _ (.symm _ _ (.rel _ _ hrx)) (.rel _ _ hre)⟩
    case oldSource ht _ =>
      rw [ht] at hre
      exact ⟨u, ⟨_, .inl hrx⟩, ⟨_, .inl hre⟩, .trans _ _ _ (.rel _ _ hre) (.symm _ _ (.rel _ _ hrx))⟩
    case newSource ht _ =>
      rw [ht] at hre
      exact ⟨u, ⟨_, .inl hre⟩, ⟨_, .inl hrx⟩, .trans _ _ _ (.rel _ _ hrx) (.symm _ _ (.rel _ _ hre))⟩
  have ⟨hfirst, hsecond⟩ := h.rename_ends hg.loopless he hx
  exact ⟨h.virtual, h.contains_keep hg.wellFormed he hx, hglue, hfirst, hsecond⟩

theorem sound_of_findRedundant (hg : g.Tidy s) (hx : g.edge? added = some x)
    (h : g.findRedundant x.source added x.target = some r) : r.Sound s g x.source x.target := by
  obtain ⟨id, e, y, _, he, hy, hk, hr⟩ := redundant_of_findRedundant h
  cases hx.symm.trans hy
  exact hr.sound hg ⟨id, he⟩ ⟨added, hx⟩ hk

namespace Redundancy.Sound

theorem folding (h : r.Sound s g first second) (hg : g.Tidy s) :
    Folding s g (g.collapse r) (rename r.drop r.keep) := by
  by_cases hne : r.drop = r.keep
  case pos =>
    rw [collapse_same hne, hne, rename_same]
    exact .of_sameNodes .refl fun _ => .rfl
  case neg =>
    have ⟨c, hkeep, hdrop, hglue⟩ := h.glue
    -- The dropped node uses only the column `c`.
    have only : ∀ p, g.Uses s p → p.node = r.drop → p = ⟨r.drop, c⟩ := by
      rintro ⟨n, d⟩ hp rfl
      exact congrArg (Slot.mk _) (hg.single _ d c h.virtual hp hdrop)
    constructor
    case node? =>
      intro n hn
      rw [QueryGraph.contains, node?_collapse hne] at hn
      rw [node?_collapse hne]
      split <;> simp_all
    case aliasName => exact fun n => aliasName_collapse
    case contains =>
      intro n hn
      rw [QueryGraph.contains, node?_collapse hne, if_neg (rename_ne hne)]
      exact WellFormed.contains_rename h.keep hn
    case realNodes => exact realNodes_collapse h.virtual
    case fixed =>
      intro n hn
      apply rename_of_ne
      rintro rfl
      have hreal := (mem_realNodes.mp hn).2
      simp [h.virtual] at hreal
    case hasEdge =>
      intro x
      simp only [HasEdge, edge?_collapse hg.wellFormed.wired (lt_of_contains h.keep), Option.map_eq_some_iff]
      grind
    case uses =>
      intro p hp
      by_cases hn : p.node = r.drop
      case pos =>
        rw [only p hp hn]
        simpa [Slot.map] using hkeep
      case neg => simpa [Slot.map, rename_of_ne hn] using hp
    case glue =>
      intro p hp
      by_cases hn : p.node = r.drop
      case pos =>
        rw [only p hp hn]
        simpa [Slot.map] using hglue
      case neg =>
        rw [Slot.map, rename_of_ne hn]
        exact .refl _

end Redundancy.Sound

theorem folding_step (hg : g.Tidy s) (hx : g.edge? added = some ⟨first, k, second⟩)
    (hr : g.findRedundant first added second = some r)
    (heq : (g.collapse r).dedupeEdges added = (g', added')) :
    Folding s g g' (rename r.drop r.keep) ∧ g'.Tidy s ∧ g'.edge? added' = some ⟨r.first, k, r.second⟩ ∧
      rename r.drop r.keep first = r.first ∧ rename r.drop r.keep second = r.second := by
  have hsound := sound_of_findRedundant hg hx hr
  have hdedup : Deduped (g.collapse r) added g' added' := by
    have h : Deduped (g.collapse r) added _ _ := deduped_dedupeEdges
    rwa [heq] at h
  have hfold := (hsound.folding hg).trans (.of_sameNodes hdedup.sameNodes hdedup.hasEdge)
  have hwf := hdedup.wellFormed (hg.wellFormed.collapse hsound.keep)
  refine ⟨hfold, hfold.tidy hg hwf, ?_, hsound.first, hsound.second⟩
  rw [hdedup.added, edge?_collapse hg.wellFormed.wired (lt_of_contains hsound.keep), hx]
  simp [Edge.map, hsound.first, hsound.second]

-- The graph with one node for all that the edge `added` from `first` to `second` has made one, and where
-- the ends of the edge have gone.
theorem folding_mergeVirtual (hg : g.Tidy s) (hx : g.edge? added = some ⟨first, k, second⟩) :
    ∃ φ, Folding s g (g.mergeVirtual first added second).1 φ ∧ (g.mergeVirtual first added second).1.Tidy s ∧
      (g.mergeVirtual first added second).2 = (φ first, φ second) := by
  fun_induction mergeVirtual g first added second
  case case1 => exact ⟨id, .of_sameNodes .refl fun _ => .rfl, hg, rfl⟩
  case case2 hr _ _ heq _ ih =>
    obtain ⟨hfold, htidy, hedge, hfirst, hsecond⟩ := folding_step hg hx hr heq
    obtain ⟨φ, hfold', htidy', hends⟩ := ih htidy hedge
    exact ⟨_, hfold.trans hfold', htidy', by simp [hends, hfirst, hsecond]⟩
  case case3 hr _ _ heq _ =>
    obtain ⟨hfold, htidy, _, hfirst, hsecond⟩ := folding_step hg hx hr heq
    exact ⟨_, hfold, htidy, by simp [hfirst, hsecond]⟩

end QueryGraph

end Subplans
