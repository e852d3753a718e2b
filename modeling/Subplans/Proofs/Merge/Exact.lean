import Subplans.Proofs.Merge.Meaning
import Subplans.Proofs.Recovery.Place

/-!
What a merger forces, node by node.

Unlike in `means_merge`, nodes are not told apart by their aliases here, which may well collide: the merger has a
place for every node of either graph that is not virtual, and between these places it forces what either graph
forces and the equalities that the joins were resolved from, no more and no less.
-/

namespace Subplans.QueryGraph

open Closure Relation

variable {s : Schema} {d : SchemaDescription} {g g₁ g₂ t source first second : QueryGraph} {n : Nat} {p q p' q' : Slot}
  {π ρ : Nat → Nat} {left right : String × String} {j : EquivalenceJoin} {joins joins' : List EquivalenceJoin}

-- The slot is that of a column, told by the alias of its node and its name.
structure Located (s : Schema) (g : QueryGraph) (side : String × String) (p : Slot) : Prop where
  node   : g.realNode? side.1 = some p.node
  column : s.column? (g.node p.node).table side.2 = some p.column

-- The sides belong to either graph in their order, or the other way round if that fails.
inductive Equates (s : Schema) (first second : QueryGraph) (left right : String × String) (p q : Slot) : Prop
  | straight : Located s first left p → Located s second right q → Equates s first second left right p q
  | crossed : ¬((first.realNode? left.1).isSome ∧ (second.realNode? right.1).isSome) → Located s first right p →
    Located s second left q → Equates s first second left right p q

-- The join makes columns of the two graphs equal.
def JoinsColumns (s : Schema) (first second : QueryGraph) (j : EquivalenceJoin) (p q : Slot) : Prop :=
  ∃ left right, resolve s first second left right = .join j ∧ Equates s first second left right p q

def Resolved (s : Schema) (first second : QueryGraph) (j : EquivalenceJoin) : Prop :=
  ∃ left right, resolve s first second left right = .join j

theorem Located.unique {side : String × String} (h : Located s g side p) (h' : Located s g side q) : p = q := by
  have hnode : p.node = q.node := Option.some.inj (h.node.symm.trans h'.node)
  have hcolumn : p.column = q.column := Option.some.inj (h.column.symm.trans (hnode ▸ h'.column))
  cases p
  cases q
  simp_all

theorem Located.real {side : String × String} (hg : g.WellFormed) (h : Located s g side p) : g.Real p :=
  (realNode?_eq_some hg h.node).1

theorem Equates.real (hf : first.WellFormed) (hs : second.WellFormed) (h : Equates s first second left right p q) :
    first.Real p ∧ second.Real q := by
  cases h
  case straight hp hq => exact ⟨hp.real hf, hq.real hs⟩
  case crossed hp hq => exact ⟨hp.real hf, hq.real hs⟩

theorem Equates.unique (h : Equates s first second left right p q) (h' : Equates s first second left right p' q') :
    p = p' ∧ q = q' := by
  cases h <;> cases h'
  case straight.straight hp hq hp' hq' => exact ⟨hp.unique hp', hq.unique hq'⟩
  case straight.crossed hp hq hnot _ _ => exact absurd ⟨by simp [hp.node], by simp [hq.node]⟩ hnot
  case crossed.straight hnot _ _ hp hq => exact absurd ⟨by simp [hp.node], by simp [hq.node]⟩ hnot
  case crossed.crossed hp hq _ hp' hq' => exact ⟨hp.unique hp', hq.unique hq'⟩

theorem located_of_joinColumns {a b : String × String} {n m : Nat} (ha : first.realNode? a.1 = some n)
    (hb : second.realNode? b.1 = some m) (h : joinColumns s first second (n, a.2) (m, b.2) = .join j) :
    ∃ c d, Located s first a ⟨j.first, c⟩ ∧ Located s second b ⟨j.second, d⟩ ∧
      s.connection? c d = some j.connection := by
  unfold joinColumns at h
  split at h
  case h_2 => cases h
  case h_1 c d hc hd =>
    split at h
    case isTrue => cases h
    case isFalse =>
      split at h
      case h_2 => cases h
      case h_1 connection hconnection =>
        cases h
        exact ⟨c, d, ⟨ha, hc⟩, ⟨hb, hd⟩, hconnection⟩

theorem equates_of_resolve (h : resolve s first second left right = .join j) :
    ∃ c d, Equates s first second left right ⟨j.first, c⟩ ⟨j.second, d⟩ ∧ s.connection? c d = some j.connection := by
  unfold resolve at h
  split at h
  case h_1 n m hn hm =>
    have ⟨c, d, hp, hq, hconnection⟩ := located_of_joinColumns hn hm h
    exact ⟨c, d, .straight hp hq, hconnection⟩
  case h_2 hnone =>
    split at h
    case h_2 => cases h
    case h_1 n m hn hm =>
      have ⟨c, d, hp, hq, hconnection⟩ := located_of_joinColumns hn hm h
      refine ⟨c, d, .crossed ?_ hp hq, hconnection⟩
      rintro ⟨ha, hb⟩
      obtain ⟨a, ha⟩ := Option.isSome_iff_exists.mp ha
      obtain ⟨b, hb⟩ := Option.isSome_iff_exists.mp hb
      exact hnone a b ha hb

-- The joined columns are the ends of the connection, whichever condition the join was resolved from.
theorem joinsColumns_iff (hd : s.Loaded) (hk : ∀ key ∈ s.keys, key.pairs.length = 1)
    (hj : Resolved s first second j) : JoinsColumns s first second j p q ↔
      ∃ c d, Walk (Steps s) c j.connection d ∧ p = ⟨j.first, c⟩ ∧ q = ⟨j.second, d⟩ := by
  constructor
  · rintro ⟨left, right, h, hpq⟩
    obtain ⟨c, d, hcd, hconnection⟩ := equates_of_resolve h
    have ⟨hp, hq⟩ := hpq.unique hcd
    exact ⟨c, d, walk_of_connection? hd hk hconnection, hp, hq⟩
  · rintro ⟨c, d, hw, rfl, rfl⟩
    obtain ⟨left, right, h⟩ := hj
    obtain ⟨c', d', hcd, hconnection⟩ := equates_of_resolve h
    obtain ⟨rfl, rfl⟩ := ends_unique hw (walk_of_connection? hd hk hconnection)
    exact ⟨left, right, h, hcd⟩

inductive Built (s : Schema) : QueryGraph → Prop
  | single {g : QueryGraph} {n : Nat} : g.WellFormed → g.nodes = [n] → g.isVirtual n = false →
    (∀ x, ¬g.HasEdge x) → Built s g
  | merge {first second : QueryGraph} {joins : List EquivalenceJoin} : Built s first → Built s second →
    (∀ j ∈ joins, Resolved s first second j) → Built s (merge s first second joins)

-- What the graph forces, between the places of its nodes that are not virtual.
def Image (s : Schema) (g : QueryGraph) (π : Nat → Nat) (p q : Slot) : Prop :=
  ∃ p' q', g.Real p' ∧ g.Real q' ∧ g.Forces s p' q' ∧ p = p'.map π ∧ q = q'.map π

-- The two graphs before joins are added, where `π` and `ρ` tell the places of their nodes.
structure Beside (s : Schema) (first second : QueryGraph) (π ρ : Nat → Nat) (g : QueryGraph) : Prop where
  tidy      : g.Tidy s
  realNodes : g.realNodes = first.realNodes.map π ++ second.realNodes.map ρ
  left      : ∀ n ∈ first.realNodes, g.node? (π n) = first.node? n
  right     : ∀ n ∈ second.realNodes, g.node? (ρ n) = second.node? n
  forces    : ∀ p q, g.Real p → g.Real q →
    (g.Forces s p q ↔ p = q ∨ Image s first π p q ∨ Image s second ρ p q)

namespace Beside

theorem mem_left (hb : Beside s first second π ρ g) (hn : n ∈ first.realNodes) : π n ∈ g.realNodes :=
  hb.realNodes ▸ List.mem_append_left _ (List.mem_map_of_mem hn)

theorem mem_right (hb : Beside s first second π ρ g) (hn : n ∈ second.realNodes) : ρ n ∈ g.realNodes :=
  hb.realNodes ▸ List.mem_append_right _ (List.mem_map_of_mem hn)

theorem stretch_of_image (hb : Beside s first second π ρ g) (h : Image s first π p q ∨ Image s second ρ p q) :
    Stretch g.Real (g.Relates s) p q := by
  have ⟨hp, hq⟩ : g.Real p ∧ g.Real q := by
    rcases h with ⟨_, _, hp, hq, _, rfl, rfl⟩ | ⟨_, _, hp, hq, _, rfl, rfl⟩
    case inl => exact ⟨hb.mem_left hp, hb.mem_left hq⟩
    case inr => exact ⟨hb.mem_right hp, hb.mem_right hq⟩
  exact ⟨hp, hq, (hb.forces p q hp hq).mpr (.inr h)⟩

end Beside

theorem image_of_copied (hf : first.WellFormed) (h : Copied empty first g₁ π)
    (hreal : ∀ p, first.contains p.node = true → g.Real (p.map π) → first.Real p) (hp : g.Real p) (hq : g.Real q)
    (hpq : g₁.Forces s p q) : p = q ∨ Image s first π p q := by
  rcases h.forces_cases .empty hf hpq with rfl | ⟨hnone, -⟩ | ⟨p', q', hp', hq', rfl, rfl, hfirst⟩
  · exact .inl rfl
  · simp [contains, node?, slot?, empty] at hnone
  · exact .inr ⟨p', q', hreal p' hp' hp, hreal q' hq' hq, hfirst, rfl, rfl⟩

theorem beside_of_copied (hf : first.Tidy s) (hs : second.Tidy s) (h₁ : Copied empty first g₁ π)
    (h₂ : Copied g₁ second g ρ) : Beside s first second π ρ g := by
  have ht₁ : g₁.Tidy s := h₁.tidy .empty hf
  have hreal₁ : g₁.realNodes = first.realNodes.map π := h₁.realNodes .empty hf.wellFormed
  have hplaced : ∀ n, first.contains n = true → g₁.contains (π n) = true := by
    intro n hn
    rwa [contains, h₁.placed n hn]
  have real_left : ∀ p, first.contains p.node = true → g.Real (p.map π) → first.Real p := by
    intro p hp hreal
    have hp₁ : g₁.contains (p.map π).node = true := hplaced _ hp
    exact (h₁.real_placed hf.wellFormed hp).mp ((h₂.real_kept ht₁.wellFormed hp₁).mp hreal)
  constructor
  case tidy => exact h₂.tidy ht₁ hs
  case realNodes => rw [h₂.realNodes ht₁.wellFormed hs.wellFormed, hreal₁]
  case left =>
    intro n hn
    have hc := (hf.wellFormed.mem_realNodes.mp hn).1
    rw [h₂.node? _ (hplaced n hc), h₁.placed n hc]
  case right => exact fun n hn => h₂.placed n (hs.wellFormed.mem_realNodes.mp hn).1
  case forces =>
    intro p q hp hq
    constructor
    · intro hpq
      rcases h₂.forces_cases ht₁.wellFormed hs.wellFormed hpq with
        rfl | ⟨-, -, hpq₁⟩ | ⟨p', q', hp', hq', rfl, rfl, hsecond⟩
      · exact .inl rfl
      · exact (image_of_copied hf.wellFormed h₁ real_left hp hq hpq₁).imp_right .inl
      · have hp := (h₂.real_placed hs.wellFormed hp').mp hp
        have hq := (h₂.real_placed hs.wellFormed hq').mp hq
        exact .inr (.inr ⟨p', q', hp, hq, hsecond, rfl, rfl⟩)
    · rintro (rfl | ⟨p', q', -, -, hpq, rfl, rfl⟩ | ⟨p', q', -, -, hpq, rfl, rfl⟩)
      · exact .refl _
      · exact h₂.forces_kept (h₁.forces_placed hpq)
      · exact h₂.forces_placed hpq

-- Where the nodes of both graphs go does not depend on the joins.
theorem beside_merge (hf : first.Tidy s) (hs : second.Tidy s) : ∃ π ρ g, Beside s first second π ρ g ∧
    ∀ joins : List EquivalenceJoin, (∀ j ∈ joins, j.first ∈ first.realNodes ∧ j.second ∈ second.realNodes ∧
        ∃ c d, Walk (Steps s) c j.connection d) →
      Joined s g (merge s first second joins) (JoinedBy s π ρ joins) := by
  have ⟨π, ρ, g₁, g, h₁, h₂, hmerge⟩ := merge_copies hf.wellFormed hs.wellFormed
  have hbeside : Beside s first second π ρ g := beside_of_copied hf hs h₁ h₂
  refine ⟨π, ρ, g, hbeside, fun joins hj => hmerge s joins ▸ joined_foldl hbeside.tidy fun j hmem => ?_⟩
  have ⟨hfirst, hsecond, hw⟩ := hj j hmem
  exact ⟨hbeside.mem_left hfirst, hbeside.mem_right hsecond, hw⟩

-- The equalities of both graphs, and one for each join.
def Equations (s : Schema) (first second : QueryGraph) (π ρ : Nat → Nat) (joins : List EquivalenceJoin) (p q : Slot) :
    Prop :=
  Image s first π p q ∨ Image s second ρ p q ∨
    ∃ j ∈ joins, ∃ p' q', JoinsColumns s first second j p' q' ∧ p = p'.map π ∧ q = q'.map ρ

-- The graph has the nodes of both graphs that are not virtual, unchanged and at different places, and forces the
-- equalities of both graphs and of the joins, as far as these nodes are concerned.
structure Merges (s : Schema) (first second : QueryGraph) (π ρ : Nat → Nat) (joins : List EquivalenceJoin)
    (g : QueryGraph) : Prop where
  realNodes : g.realNodes = first.realNodes.map π ++ second.realNodes.map ρ
  nodup     : g.realNodes.Nodup
  left      : ∀ n ∈ first.realNodes, g.node? (π n) = first.node? n
  right     : ∀ n ∈ second.realNodes, g.node? (ρ n) = second.node? n
  joined    : ∀ j ∈ joins, ∃ p q, ∀ p' q', JoinsColumns s first second j p' q' ↔ p' = p ∧ q' = q
  forces    : ∀ p q, g.Real p → g.Real q →
    (g.Forces s p q ↔ EqvGen (Equations s first second π ρ joins) p q)

section

variable (hd : s.Loaded) (hk : ∀ key ∈ s.keys, key.pairs.length = 1)

include hd hk

theorem Resolved.ends (hf : first.WellFormed) (hs : second.WellFormed) (hj : Resolved s first second j) :
    j.first ∈ first.realNodes ∧ j.second ∈ second.realNodes ∧ ∃ c d, Walk (Steps s) c j.connection d := by
  obtain ⟨left, right, h⟩ := hj
  obtain ⟨c, d, hcd, hconnection⟩ := equates_of_resolve h
  have ⟨hfirst, hsecond⟩ := hcd.real hf hs
  exact ⟨hfirst, hsecond, c, d, walk_of_connection? hd hk hconnection⟩

-- What both graphs force side by side and what is joined are the equalities of both graphs and of the joins.
theorem Beside.equations_iff (hb : Beside s first second π ρ g) (hj : ∀ j ∈ joins, Resolved s first second j) :
    EqvGen (Either (Stretch g.Real (g.Relates s)) (JoinedBy s π ρ joins)) p q ↔
      EqvGen (Equations s first second π ρ joins) p q := by
  constructor
  case mp =>
    refine of_le ?_
    rintro p q (⟨hp, hq, hpq⟩ | ⟨j, hmem, c, d, hw, rfl, rfl⟩)
    · rcases (hb.forces p q hp hq).mp hpq with rfl | hpq | hpq
      · exact .refl _
      · exact .rel _ _ (.inl hpq)
      · exact .rel _ _ (.inr (.inl hpq))
    · have hcolumns := (joinsColumns_iff hd hk (hj j hmem)).mpr ⟨c, d, hw, rfl, rfl⟩
      exact .rel _ _ (.inr (.inr ⟨j, hmem, _, _, hcolumns, rfl, rfl⟩))
  case mpr =>
    refine of_le ?_
    rintro p q (himage | himage | ⟨j, hmem, p', q', hcolumns, rfl, rfl⟩)
    · exact .rel _ _ (.inl (hb.stretch_of_image (.inl himage)))
    · exact .rel _ _ (.inl (hb.stretch_of_image (.inr himage)))
    · obtain ⟨c, d, hw, rfl, rfl⟩ := (joinsColumns_iff hd hk (hj j hmem)).mp hcolumns
      exact .rel _ _ (.inr ⟨j, hmem, c, d, hw, rfl, rfl⟩)

theorem merges_of_joined (hf : first.WellFormed) (hs : second.WellFormed) (hb : Beside s first second π ρ g)
    (hj : ∀ j ∈ joins, Resolved s first second j) (h : Joined s g g' (JoinedBy s π ρ joins)) :
    Merges s first second π ρ joins g' := by
  have hreal : ∀ p q, JoinedBy s π ρ joins p q → g.Real p ∧ g.Real q := by
    rintro p q ⟨j, hmem, c, d, -, rfl, rfl⟩
    have ⟨hfirst, hsecond, _⟩ := (hj j hmem).ends hd hk hf hs
    exact ⟨hb.mem_left hfirst, hb.mem_right hsecond⟩
  constructor
  case realNodes => rw [h.keeps.realNodes, hb.realNodes]
  case nodup => exact h.tidy.wellFormed.nodup_nodes.filter _
  case left =>
    intro n hn
    rw [h.keeps.node? _ (hb.mem_left hn), hb.left n hn]
  case right =>
    intro n hn
    rw [h.keeps.node? _ (hb.mem_right hn), hb.right n hn]
  case joined =>
    intro j hmem
    obtain ⟨-, -, c, d, hw⟩ := (hj j hmem).ends hd hk hf hs
    refine ⟨⟨j.first, c⟩, ⟨j.second, d⟩, fun p q => (joinsColumns_iff hd hk (hj j hmem)).trans ?_⟩
    constructor
    · rintro ⟨c', d', hw', rfl, rfl⟩
      obtain ⟨rfl, rfl⟩ := ends_unique hw hw'
      exact ⟨rfl, rfl⟩
    · rintro ⟨rfl, rfl⟩
      exact ⟨c, d, hw, rfl, rfl⟩
  case forces =>
    intro p q hp hq
    rw [h.keeps.real] at hp hq
    rw [Forces, h.agree p q hp hq, restrict_iff hreal hp hq]
    exact hb.equations_iff hd hk hj

theorem Built.tidy (hg : Built s g) : g.Tidy s := by
  induction hg
  case single g n hwf _ _ hnone =>
    have hunused : ∀ p, ¬g.Uses s p := by
      rintro p ⟨q, ⟨x, hx, _⟩ | ⟨x, hx, _⟩⟩
      · exact hnone x hx
      · exact hnone x hx
    exact ⟨hwf, fun x hx => absurd hx (hnone x), fun n c d _ hc _ => absurd hc (hunused _)⟩
  case merge hj ihf ihs =>
    obtain ⟨π, ρ, g, -, hjoined⟩ := beside_merge ihf ihs
    exact (hjoined _ fun j hmem => (hj j hmem).ends hd hk ihf.wellFormed ihs.wellFormed).tidy

end

-- Two mergers that force the same between the nodes that are not virtual.
structure SameMeaning (s : Schema) (g g' : QueryGraph) : Prop where
  realNodes : g'.realNodes = g.realNodes
  forces    : ∀ p q, g.Real p → g.Real q → (g'.Forces s p q ↔ g.Forces s p q)

theorem merge_exact (hd : Schema.ofDescription d = .ok s) (hk : ∀ key ∈ s.keys, key.pairs.length = 1)
    (hf : Built s first) (hs : Built s second) : ∃ π ρ, ∀ joins, (∀ j ∈ joins, Resolved s first second j) →
      Merges s first second π ρ joins (merge s first second joins) ∧
      ∀ joins', (∀ j, j ∈ joins' ↔ j ∈ joins) →
        SameMeaning s (merge s first second joins) (merge s first second joins') := by
  have hd := Schema.loaded_of_ofDescription hd
  have hf := hf.tidy hd hk
  have hs := hs.tidy hd hk
  obtain ⟨π, ρ, g, hbeside, hjoined⟩ := beside_merge hf hs
  have hmerges : ∀ joins, (∀ j ∈ joins, Resolved s first second j) →
      Merges s first second π ρ joins (merge s first second joins) := fun joins hj =>
    merges_of_joined hd hk hf.wellFormed hs.wellFormed hbeside hj
      (hjoined joins fun j hmem => (hj j hmem).ends hd hk hf.wellFormed hs.wellFormed)
  refine ⟨π, ρ, fun joins hj => ⟨hmerges joins hj, fun joins' hsame => ?_⟩⟩
  have h := hmerges joins hj
  have h' := hmerges joins' fun j hmem => hj j ((hsame j).mp hmem)
  have hreal : (merge s first second joins').realNodes = (merge s first second joins).realNodes :=
    h'.realNodes.trans h.realNodes.symm
  refine ⟨hreal, fun p q hp hq => ?_⟩
  have hequations : Equations s first second π ρ joins' = Equations s first second π ρ joins := by
    funext p q
    simp only [Equations, hsame]
  rw [h.forces p q hp hq, h'.forces p q (by rwa [Real, hreal]) (by rwa [Real, hreal]), hequations]

-- A graph of one table.
def single (table : Nat) : QueryGraph :=
  (empty.add { table, cardinality := 1, clauses := [], isVirtual := false } "x").2

theorem built_single {table : Nat} : Built s (single table) := by
  refine .single (WellFormed.empty.add rfl) (n := 0) rfl rfl fun x hx => ?_
  simpa [single, add, empty] using hasEdge_iff_mem.mp hx

-- The tables go by one alias.
theorem resolve_single : ∃ s, Schema.ofDescription Schema.triangle = .ok s ∧
    (∀ key ∈ s.keys, key.pairs.length = 1) ∧
    resolve s (single 1) (single 2) ("x", "a_id") ("x", "a_id") = .join ⟨0, [.join 2 false], 0⟩ :=
  ⟨_, rfl, by decide +kernel, by decide +kernel⟩

theorem merge_exact_triangle : ∃ s, Schema.ofDescription Schema.triangle = .ok s ∧
    (∀ key ∈ s.keys, key.pairs.length = 1) ∧ Built s (single 1) ∧ Built s (single 2) ∧
    (∃ j, Resolved s (single 1) (single 2) j) ∧
    ∃ π ρ, ∀ joins, (∀ j ∈ joins, Resolved s (single 1) (single 2) j) →
      Merges s (single 1) (single 2) π ρ joins (merge s (single 1) (single 2) joins) ∧
      ∀ joins', (∀ j, j ∈ joins' ↔ j ∈ joins) →
        SameMeaning s (merge s (single 1) (single 2) joins) (merge s (single 1) (single 2) joins') := by
  have ⟨s, hd, hk, hj⟩ := resolve_single
  exact ⟨s, hd, hk, built_single, built_single, ⟨_, _, _, hj⟩, merge_exact hd hk built_single built_single⟩

end Subplans.QueryGraph
