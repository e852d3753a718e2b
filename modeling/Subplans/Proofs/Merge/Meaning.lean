import Subplans.Proofs.Merge.Connect
import Subplans.Proofs.Merge.Copy

/-!
What query graphs mean for the tables that they are about.

Outside of a graph its nodes are known by their aliases. A graph `Means` some equalities between columns of
aliased tables if the closure of these is what it forces between columns of nodes that are not virtual. The
merger of two graphs means what the two mean and the equalities that it was asked to add (`means_merge`).
-/

namespace Subplans

open Closure Relation

-- A column of the table that goes by an alias.
abbrev Label := String × ColumnRef

namespace QueryGraph

variable {s : Schema} {g g' t source first second : QueryGraph} {n m : Nat} {p q : Slot} {π : Nat → Nat}
  {E F : Label → Label → Prop} {J : Slot → Slot → Prop} {x y : Label}

def label (g : QueryGraph) (p : Slot) : Label :=
  (g.aliasName p.node, p.column)

-- The slot is that of the label.
def Labels (g : QueryGraph) (p : Slot) (x : Label) : Prop :=
  g.Real p ∧ g.label p = x

structure Means (s : Schema) (g : QueryGraph) (E : Label → Label → Prop) : Prop where
  tidy    : g.Tidy s
  named   : g.Named
  support : ∀ x y, E x y → (∃ p, g.Labels p x) ∧ ∃ q, g.Labels q y
  forces  : ∀ p q, g.Real p → g.Real q → (g.Forces s p q ↔ EqvGen E (g.label p) (g.label q))

-- The slot of a label.
def slotOf (g : QueryGraph) (x : Label) : Slot where
  node := (g.byAlias? x.1).getD 0
  column := x.2

theorem slotOf_label (hg : g.WellFormed) (hp : g.Real p) : g.slotOf (g.label p) = p := by
  have halias := (hg.byAlias _ p.node).mpr ⟨(hg.mem_realNodes.mp hp).1, rfl⟩
  simp [slotOf, label, halias]

-- Relations of slots and of labels that go over into each other have the same closure.
theorem transfer (hg : g.WellFormed) {A : Slot → Slot → Prop}
    (hA : ∀ p q, A p q → EqvGen E (g.label p) (g.label q))
    (hE : ∀ x y, E x y → ∃ p q, g.Labels p x ∧ g.Labels q y ∧ EqvGen A p q) (hp : g.Real p) (hq : g.Real q) :
    EqvGen A p q ↔ EqvGen E (g.label p) (g.label q) where
  mp := map g.label hA
  mpr h := by
    have hmap := map (B := A) g.slotOf ?_ h
    case refine_1 =>
      intro x y hxy
      obtain ⟨p, q, ⟨hp, rfl⟩, ⟨hq, rfl⟩, hpq⟩ := hE x y hxy
      rwa [slotOf_label hg hp, slotOf_label hg hq]
    rwa [slotOf_label hg hp, slotOf_label hg hq] at hmap

namespace Means

protected theorem empty : Means s empty fun _ _ => False where
  tidy := .empty
  named := named_empty
  support _ _ := False.elim
  forces p _ hp := by simp [Real, realNodes, empty] at hp

-- A graph beside a copy of another means what the two mean.
theorem copy (ht : Means s t E) (hs : Means s source F) (h : Copied t source g π) (hapart : Apart source t) :
    Means s g (Either E F) := by
  have htw := ht.tidy.wellFormed
  have hsw := hs.tidy.wellFormed
  obtain ⟨hnamed, halias⟩ := h.aliases htw hsw ht.named hs.named hapart
  have kept : ∀ p, t.Real p → g.Real p ∧ g.label p = t.label p := by
    intro p hp
    have hc := (htw.mem_realNodes.mp hp).1
    exact ⟨(h.real_kept htw hc).mpr hp, by rw [label, h.aliasName _ hc, label]⟩
  have placed : ∀ p, source.Real p → g.Real (p.map π) ∧ g.label (p.map π) = source.label p := by
    intro p hp
    have hc := (hsw.mem_realNodes.mp hp).1
    exact ⟨(h.real_placed hsw hc).mpr hp, by rw [label, Slot.map, halias _ hp, label]⟩
  constructor
  case tidy => exact h.tidy ht.tidy hs.tidy
  case named => exact hnamed
  case support =>
    rintro x y (hxy | hxy)
    case inl =>
      obtain ⟨⟨p, hp, hpx⟩, ⟨q, hq, hqy⟩⟩ := ht.support x y hxy
      exact ⟨⟨p, (kept p hp).1, (kept p hp).2.trans hpx⟩, ⟨q, (kept q hq).1, (kept q hq).2.trans hqy⟩⟩
    case inr =>
      obtain ⟨⟨p, hp, hpx⟩, ⟨q, hq, hqy⟩⟩ := hs.support x y hxy
      exact ⟨⟨_, (placed p hp).1, (placed p hp).2.trans hpx⟩, ⟨_, (placed q hq).1, (placed q hq).2.trans hqy⟩⟩
  case forces =>
    intro p q hp hq
    -- Between columns of such nodes the closure can be taken over these nodes alone.
    rw [Forces, stretch_iff hp hq]
    refine transfer h.wellFormed ?hA ?hE hp hq
    case hA =>
      rintro p q ⟨hp, hq, hpq⟩
      rcases h.forces_cases htw hsw hpq with rfl | ⟨hpt, hqt, hpq⟩ | ⟨p, q, hps, hqs, rfl, rfl, hsource⟩
      · exact .refl _
      · have hp := (h.real_kept htw hpt).mp hp
        have hq := (h.real_kept htw hqt).mp hq
        rw [(kept p hp).2, (kept q hq).2]
        exact left ((ht.forces p q hp hq).mp hpq)
      · have hp := (h.real_placed hsw hps).mp hp
        have hq := (h.real_placed hsw hqs).mp hq
        rw [(placed p hp).2, (placed q hq).2]
        exact right ((hs.forces p q hp hq).mp hsource)
    case hE =>
      rintro x y (hxy | hxy)
      case inl =>
        obtain ⟨⟨p, hp, rfl⟩, ⟨q, hq, rfl⟩⟩ := ht.support x y hxy
        refine ⟨p, q, kept p hp, kept q hq, .rel _ _ ⟨(kept p hp).1, (kept q hq).1, ?_⟩⟩
        exact h.forces_kept ((ht.forces p q hp hq).mpr (.rel _ _ hxy))
      case inr =>
        obtain ⟨⟨p, hp, rfl⟩, ⟨q, hq, rfl⟩⟩ := hs.support x y hxy
        refine ⟨_, _, placed p hp, placed q hq, .rel _ _ ⟨(placed p hp).1, (placed q hq).1, ?_⟩⟩
        exact h.forces_placed ((hs.forces p q hp hq).mpr (.rel _ _ hxy))

-- Joins between slots add the equalities of their labels.
theorem join (hg : Means s g E) (h : Joined s g g' J) (hJ : ∀ p q, J p q → g.Real p ∧ g.Real q) :
    Means s g' (Either E fun x y => ∃ p q, J p q ∧ g.label p = x ∧ g.label q = y) := by
  have hlabel : ∀ p, g.Real p → g'.label p = g.label p := by
    intro p hp
    rw [label, label, h.keeps.aliasName _ hp]
  have hlabels : ∀ p x, g.Labels p x → g'.Labels p x := by
    rintro p _ ⟨hp, rfl⟩
    exact ⟨h.keeps.real ▸ hp, hlabel p hp⟩
  constructor
  case tidy => exact h.tidy
  case named => exact h.keeps.named hg.named
  case support =>
    rintro x y (hxy | ⟨p, q, hpq, rfl, rfl⟩)
    case inl =>
      have ⟨⟨p, hp⟩, ⟨q, hq⟩⟩ := hg.support x y hxy
      exact ⟨⟨p, hlabels p x hp⟩, ⟨q, hlabels q y hq⟩⟩
    case inr =>
      have ⟨hp, hq⟩ := hJ p q hpq
      exact ⟨⟨p, hlabels p _ ⟨hp, rfl⟩⟩, ⟨q, hlabels q _ ⟨hq, rfl⟩⟩⟩
  case forces =>
    rw [h.keeps.real]
    intro p q hp hq
    rw [Forces, h.agree p q hp hq, restrict_iff hJ hp hq, hlabel p hp, hlabel q hq]
    refine transfer hg.tidy.wellFormed ?hA ?hE hp hq
    case hA =>
      rintro p q (⟨hp, hq, hpq⟩ | hpq)
      case inl => exact left ((hg.forces p q hp hq).mp hpq)
      case inr => exact .rel _ _ (.inr ⟨p, q, hpq, rfl, rfl⟩)
    case hE =>
      rintro x y (hxy | ⟨p, q, hpq, rfl, rfl⟩)
      case inl =>
        obtain ⟨⟨p, hp, rfl⟩, ⟨q, hq, rfl⟩⟩ := hg.support x y hxy
        have hpq := (hg.forces p q hp hq).mpr (.rel _ _ hxy)
        exact ⟨p, q, ⟨hp, rfl⟩, ⟨hq, rfl⟩, .rel _ _ (.inl ⟨hp, hq, hpq⟩)⟩
      case inr =>
        have ⟨hp, hq⟩ := hJ p q hpq
        exact ⟨p, q, ⟨hp, rfl⟩, ⟨hq, rfl⟩, .rel _ _ (.inr hpq)⟩

end Means

-- The nodes that are not virtual, by their aliases.
def occurrences (g : QueryGraph) : List (String × Occurrence) :=
  g.realNodes.map fun n => (g.aliasName n, g.node n)

theorem Keeps.occurrences (h : Keeps g g') : g'.occurrences = g.occurrences := by
  rw [QueryGraph.occurrences, QueryGraph.occurrences, h.realNodes]
  exact List.map_congr_left fun n hn => by rw [node, node, h.node? n hn, h.aliasName n hn]

theorem Copied.occurrences (h : Copied t source g π) (ht : t.WellFormed) (hs : source.WellFormed) (hnt : t.Named)
    (hns : source.Named) (hapart : Apart source t) : g.occurrences = t.occurrences ++ source.occurrences := by
  have halias := (h.aliases ht hs hnt hns hapart).2
  rw [QueryGraph.occurrences, h.realNodes ht hs, List.map_append, List.map_map]
  congr 1
  case e_a =>
    refine List.map_congr_left fun n hn => ?_
    have hn := (ht.mem_realNodes.mp hn).1
    rw [node, node, h.node? n hn, h.aliasName n hn]
  case e_a =>
    refine List.map_congr_left fun n hn => ?_
    rw [Function.comp, node, h.placed n (hs.mem_realNodes.mp hn).1, halias n hn, node]

-- The copy of a graph into the empty one is like the graph itself.
theorem copied_empty (h : Copied empty source g π) (hs : Means s source E) :
    Means s g E ∧ g.occurrences = source.occurrences ∧ (∀ m, Apart m source → Apart m g) ∧
      ∀ n ∈ source.realNodes, π n ∈ g.realNodes ∧ g.aliasName (π n) = source.aliasName n := by
  have hempty : Means s empty fun _ _ => False := .empty
  have hapart : Apart source empty := fun n _ m hm => by simp [realNodes, empty] at hm
  have hsw := hs.tidy.wellFormed
  have hmeans := hempty.copy hs h hapart
  have hoccurrences := h.occurrences .empty hsw named_empty hs.named hapart
  have halias := (h.aliases .empty hsw named_empty hs.named hapart).2
  have hreal : g.realNodes = source.realNodes.map π := h.realNodes .empty hsw
  have hE : Either (fun _ _ => False) E = E := by
    funext x y
    simp [Either]
  refine ⟨hE ▸ hmeans, hoccurrences, fun m hm n hn k hk => ?_, fun n hn => ⟨?_, halias n hn⟩⟩
  · rw [hreal] at hk
    obtain ⟨k, hk, heq⟩ := List.mem_map.mp hk
    rw [← heq, halias k hk]
    exact hm n hn k hk
  · exact hreal ▸ List.mem_map_of_mem hn

-- The equalities that joins between two graphs make.
def JoinedLabels (s : Schema) (first second : QueryGraph) (joins : List EquivalenceJoin) (x y : Label) : Prop :=
  ∃ j ∈ joins, ∃ c d, Walk (Steps s) c j.connection d ∧ x = (first.aliasName j.first, c) ∧
    y = (second.aliasName j.second, d)

-- The merger has the nodes of both graphs that are not virtual, and means what they mean and what joins add.
theorem means_merge {joins : List EquivalenceJoin} (hE : Means s first E) (hF : Means s second F)
    (hapart : Apart second first)
    (hj : ∀ j ∈ joins, j.first ∈ first.realNodes ∧ j.second ∈ second.realNodes ∧
      ∃ c d, Walk (Steps s) c j.connection d) :
    Means s (merge s first second joins) (Either (Either E F) (JoinedLabels s first second joins)) ∧
    (merge s first second joins).occurrences = first.occurrences ++ second.occurrences := by
  -- The first graph is copied into the empty one, and the second beside it.
  have ⟨π, ρ, g₁, g₂, hfirst, hsecond, hmerge⟩ := merge_copies hE.tidy.wellFormed hF.tidy.wellFormed
  rw [hmerge]
  have ⟨hE₁, hocc₁, hapart₁, hplace₁⟩ := copied_empty hfirst hE
  have hw₁ := hE₁.tidy.wellFormed
  have hw₂ := hF.tidy.wellFormed
  have hmeans := hE₁.copy hF hsecond (hapart₁ second hapart)
  have hocc := hsecond.occurrences hw₁ hw₂ hE₁.named hF.named (hapart₁ second hapart)
  have hreal := hsecond.realNodes hw₁ hw₂
  have hπ : ∀ n ∈ first.realNodes, π n ∈ g₂.realNodes ∧
      g₂.aliasName (π n) = first.aliasName n := by
    intro n hn
    have ⟨hmem, halias⟩ := hplace₁ n hn
    exact ⟨hreal ▸ List.mem_append_left _ hmem, (hsecond.aliasName _ (hw₁.mem_realNodes.mp hmem).1).trans halias⟩
  have hρ : ∀ n ∈ second.realNodes, ρ n ∈ g₂.realNodes ∧
      g₂.aliasName (ρ n) = second.aliasName n := by
    intro n hn
    have halias := (hsecond.aliases hw₁ hw₂ hE₁.named hF.named (hapart₁ second hapart)).2
    exact ⟨hreal ▸ List.mem_append_right _ (List.mem_map_of_mem hn), halias n hn⟩
  -- Then the joins are added one after the other.
  have hjoined := joined_foldl hmeans.tidy (π := π) (ρ := ρ) fun j hmem =>
    have ⟨hfirst, hsecond, hw⟩ := hj j hmem
    ⟨(hπ _ hfirst).1, (hρ _ hsecond).1, hw⟩
  have hmerged := hmeans.join hjoined ?_
  case refine_1 =>
    rintro p q ⟨j, hmem, c, d, _, rfl, rfl⟩
    have ⟨hfirst, hsecond, _⟩ := hj j hmem
    exact ⟨(hπ _ hfirst).1, (hρ _ hsecond).1⟩
  have hlabels : JoinedLabels s first second joins = fun x y =>
      ∃ p q, JoinedBy s π ρ joins p q ∧ g₂.label p = x ∧ g₂.label q = y := by
    funext x y
    refine eq_iff_iff.mpr ⟨?_, ?_⟩
    · rintro ⟨j, hmem, c, d, hw, rfl, rfl⟩
      have ⟨hfirst, hsecond, _⟩ := hj j hmem
      exact ⟨_, _, ⟨j, hmem, c, d, hw, rfl, rfl⟩, by rw [label, (hπ _ hfirst).2], by rw [label, (hρ _ hsecond).2]⟩
    · rintro ⟨_, _, ⟨j, hmem, c, d, hw, rfl, rfl⟩, rfl, rfl⟩
      have ⟨hfirst, hsecond, _⟩ := hj j hmem
      exact ⟨j, hmem, c, d, hw, by rw [label, (hπ _ hfirst).2], by rw [label, (hρ _ hsecond).2]⟩
  rw [hlabels]
  exact ⟨hmerged, hjoined.keeps.occurrences.trans (hocc.trans (hocc₁ ▸ rfl))⟩

end QueryGraph

end Subplans
