import Subplans.Proofs.Closure
import Subplans.Proofs.Graph.WellFormed
import Subplans.Query.Equalities

/-!
The equalities that the edges of a query graph force between columns of its nodes.

`Tidy` graphs are those that merging makes: every edge belongs to a key of one pair of different columns,
and the edges at a virtual node all belong to one column of it.
-/

namespace Subplans

-- The same column of the node that stands for the node.
def Slot.map (φ : Nat → Nat) (p : Slot) : Slot where
  node := φ p.node
  column := p.column

namespace QueryGraph

open Closure Relation

variable {s : Schema} {g g' : QueryGraph} {m n source key target k : Nat} {o : Occurrence} {x : Edge} {a : String}
  {c d u v : ColumnRef} {p q : Slot}

-- An edge refers from the one slot to the other.
def Relates (s : Schema) (g : QueryGraph) (p q : Slot) : Prop :=
  ∃ x, g.HasEdge x ∧ x.source = p.node ∧ x.target = q.node ∧ (p.column, q.column) ∈ (s.key x.key).pairs

-- The slots are equal wherever the joins of the graph hold.
def Forces (s : Schema) (g : QueryGraph) : Slot → Slot → Prop :=
  EqvGen (g.Relates s)

-- An edge refers from or to the slot.
def Uses (s : Schema) (g : QueryGraph) (p : Slot) : Prop :=
  ∃ q, g.Relates s p q ∨ g.Relates s q p

-- The slot belongs to a node that is not virtual.
def Real (g : QueryGraph) (p : Slot) : Prop :=
  p.node ∈ g.realNodes

instance : Decidable (g.Real p) :=
  inferInstanceAs (Decidable (p.node ∈ g.realNodes))

-- The key consists of one pair of different columns.
structure IsProper (s : Schema) (k : Nat) (u v : ColumnRef) : Prop where
  pairs : (s.key k).pairs = [(u, v)]
  ne    : u ≠ v

structure Tidy (s : Schema) (g : QueryGraph) : Prop where
  wellFormed : g.WellFormed
  proper     : ∀ x, g.HasEdge x → ∃ u v, IsProper s x.key u v
  single     : ∀ n c d, g.isVirtual n = true → g.Uses s ⟨n, c⟩ → g.Uses s ⟨n, d⟩ → c = d

-- Exactly the virtual nodes have aliases that were handed out.
def Named (g : QueryGraph) : Prop :=
  ∀ n, g.contains n = true → (g.isVirtual n = true ↔ ∃ k, g.aliasName n = numbered k)

theorem Named.not_numbered (h : g.Named) (hn : g.contains n = true) (hv : g.isVirtual n = false) :
    g.aliasName n ≠ numbered k := by
  intro hk
  simp [(h n hn).mpr ⟨k, hk⟩] at hv

theorem mem_realNodes : n ∈ g.realNodes ↔ n ∈ g.nodes ∧ g.isVirtual n = false := by
  simp [realNodes]

theorem Indexed.mem_realNodes (hg : g.Indexed) :
    n ∈ g.realNodes ↔ g.contains n = true ∧ g.isVirtual n = false := by
  rw [QueryGraph.mem_realNodes, hg.mem_nodes]

theorem WellFormed.mem_realNodes (hg : g.WellFormed) :
    n ∈ g.realNodes ↔ g.contains n = true ∧ g.isVirtual n = false :=
  hg.indexed.mem_realNodes

theorem contains_of_isVirtual (h : g.isVirtual n = true) : g.contains n = true := by
  simp only [isVirtual, contains] at *
  cases hn : g.node? n <;> simp_all

-- The slots that edges relate.
def relations (g : QueryGraph) (s : Schema) : List (Slot × Slot) :=
  (g.edges.filterMap id).flatMap fun x => (s.key x.key).pairs.map fun (c, d) => (⟨x.source, c⟩, ⟨x.target, d⟩)

theorem hasEdge_iff_mem : g.HasEdge x ↔ some x ∈ g.edges := by
  simp [HasEdge, edge?, List.mem_iff_getElem?, Option.join_eq_some_iff]

theorem relates_iff_mem : g.Relates s p q ↔ (p, q) ∈ g.relations s := by
  obtain ⟨n, c⟩ := p
  obtain ⟨m, d⟩ := q
  simp only [Relates, hasEdge_iff_mem, relations, List.mem_flatMap, List.mem_filterMap, id, exists_eq_right,
    List.mem_map, Prod.mk.injEq, Slot.mk.injEq, Prod.exists]
  constructor
  · rintro ⟨x, hx, rfl, rfl, hp⟩
    exact ⟨x, hx, c, d, hp, ⟨rfl, rfl⟩, rfl, rfl⟩
  · rintro ⟨x, hx, c, d, hp, ⟨rfl, rfl⟩, rfl, rfl⟩
    exact ⟨x, hx, rfl, rfl, hp⟩

theorem forces_of_mem_relations (h : (p, q) ∈ g.relations s) : g.Forces s p q :=
  .rel _ _ (relates_iff_mem.mpr h)

theorem forces_of_common_target {t : Slot} (hp : (p, t) ∈ g.relations s) (hq : (q, t) ∈ g.relations s) :
    g.Forces s p q :=
  .trans _ _ _ (forces_of_mem_relations hp) (.symm _ _ (forces_of_mem_relations hq))

-- A slot that is forced to equal another one is the source or target of some edge.
theorem forces_cases {P : Slot → Prop} (h : ∀ e ∈ g.relations s, P e.1 ∧ P e.2) (hpq : g.Forces s p q) :
    p = q ∨ (P p ∧ P q) :=
  eq_or (fun _ _ hrel => h _ (relates_iff_mem.mp hrel)) hpq

-- Where no edge leads from one side to the other, nothing on the one is forced to equal anything on the other.
theorem side_eq_of_forces (side : Slot → Bool) (h : ∀ e ∈ g.relations s, side e.1 = side e.2) (hpq : g.Forces s p q) :
    side p = side q := by
  refine (iff_eq (A := fun _ _ => False) (by simp)).mp (map side ?_ hpq)
  intro p q hrel
  exact h _ (relates_iff_mem.mp hrel) ▸ .refl _

theorem Relates.congr (h : ∀ x, g'.HasEdge x ↔ g.HasEdge x) : g'.Relates s p q ↔ g.Relates s p q := by
  simp only [Relates, h]

theorem Uses.congr (h : ∀ x, g'.HasEdge x ↔ g.HasEdge x) : g'.Uses s p ↔ g.Uses s p := by
  simp only [Uses, Relates.congr h]

theorem WellFormed.contains_of_uses (hg : g.WellFormed) (h : g.Uses s p) : g.contains p.node = true := by
  rcases h with ⟨q, ⟨x, hx, hs, _⟩ | ⟨x, hx, _, ht, _⟩⟩
  case inl => exact hs ▸ hg.contains_source hx
  case inr => exact ht ▸ hg.contains_target hx

namespace IsProper

theorem mem_iff (h : IsProper s k u v) : (c, d) ∈ (s.key k).pairs ↔ c = u ∧ d = v := by
  rw [h.pairs, List.mem_singleton, Prod.mk.injEq]

theorem relates (h : IsProper s x.key u v) (hx : g.HasEdge x) : g.Relates s ⟨x.source, u⟩ ⟨x.target, v⟩ :=
  ⟨x, hx, rfl, rfl, h.mem_iff.mpr ⟨rfl, rfl⟩⟩

end IsProper

namespace Tidy

protected theorem empty : Tidy s empty where
  wellFormed := .empty
  proper x hx := by
    have ⟨e, he⟩ := hx
    simp [empty, edge?] at he
  single n c d hn := by simp [empty, isVirtual, node?, slot?] at hn

-- An edge with both ends at one virtual node would use two columns of it.
theorem loopless (hg : g.Tidy s) (x : Edge) (hx : g.HasEdge x) (heq : x.source = x.target) :
    g.isVirtual x.source = false := by
  cases hv : g.isVirtual x.source
  case false => rfl
  case true =>
    have ⟨u, v, huv⟩ := hg.proper x hx
    have hrel := huv.relates hx
    rw [← heq] at hrel
    exact absurd (hg.single _ u v hv ⟨_, .inl hrel⟩ ⟨_, .inr hrel⟩) huv.ne

-- A node may come to be or to go, as long as the others keep their kind and the edges stay.
theorem of_hasEdge (hg : g.Tidy s) (hwf : g'.WellFormed) (hx : ∀ x, g'.HasEdge x ↔ g.HasEdge x)
    (hv : ∀ n, g.contains n = true → g'.isVirtual n = g.isVirtual n) : g'.Tidy s where
  wellFormed := hwf
  proper x h := hg.proper x ((hx x).mp h)
  single n c d hn hc hd := by
    rw [Uses.congr hx] at hc hd
    exact hg.single n c d (hv n (hg.wellFormed.contains_of_uses hc) ▸ hn) hc hd

end Tidy

theorem named_empty : Named empty := by
  simp [Named, empty, contains, node?, slot?]

-- The nodes that are not virtual stay as they are, and aliases that are handed out go to virtual nodes only.
structure Keeps (g g' : QueryGraph) : Prop where
  realNodes : g'.realNodes = g.realNodes
  node?     : ∀ n ∈ g.realNodes, g'.node? n = g.node? n
  aliasName : ∀ n ∈ g.realNodes, g'.aliasName n = g.aliasName n
  named     : g.Named → g'.Named

namespace Keeps

theorem refl : Keeps g g :=
  ⟨rfl, fun _ _ => rfl, fun _ _ => rfl, id⟩

theorem trans {g'' : QueryGraph} (h : Keeps g g') (h' : Keeps g' g'') : Keeps g g'' where
  realNodes := h'.realNodes.trans h.realNodes
  node? n hn := (h'.node? n (h.realNodes ▸ hn)).trans (h.node? n hn)
  aliasName n hn := (h'.aliasName n (h.realNodes ▸ hn)).trans (h.aliasName n hn)
  named hg := h'.named (h.named hg)

theorem real (h : Keeps g g') : g'.Real = g.Real := by
  funext p
  rw [Real, Real, h.realNodes]

end Keeps

theorem SameNodes.keeps (h : SameNodes g g') : Keeps g g' where
  realNodes := h.realNodes
  node? n _ := h.node? n
  aliasName n _ := h.aliasName n
  named hg n hn := by
    rw [h.isVirtual, h.aliasName]
    exact hg n (h.contains ▸ hn)

theorem hasEdge_add : (g.add o a).2.HasEdge x ↔ g.HasEdge x :=
  .rfl

theorem isVirtual_add (hn : g.contains n = true) : (g.add o a).2.isVirtual n = g.isVirtual n := by
  have hlt := Nat.ne_of_lt (lt_of_contains hn)
  simp [isVirtual, node?_add, hlt]

theorem isVirtual_add_length : (g.add o a).2.isVirtual g.slots.length = o.isVirtual := by
  simp [isVirtual, node?_add]

theorem realNodes_add (hg : g.Indexed) :
    (g.add o a).2.realNodes = g.realNodes ++ if o.isVirtual then [] else [g.slots.length] := by
  have hnodes : (g.add o a).2.nodes = g.nodes ++ [g.slots.length] := rfl
  rw [realNodes, realNodes, hnodes, List.filter_append]
  congr 1
  case e_a =>
    refine List.filter_congr fun n hn => ?_
    rw [isVirtual_add ((hg.mem_nodes n).mp hn)]
  case e_a => cases h : o.isVirtual <;> simp [isVirtual_add_length, h]

protected theorem Tidy.add (hg : g.Tidy s) (ha : g.byAlias? a = none) : (g.add o a).2.Tidy s :=
  hg.of_hasEdge (hg.wellFormed.add ha) (fun _ => hasEdge_add) fun _ => isVirtual_add

protected theorem Tidy.addFresh (hg : g.Tidy s) : (g.addFresh o).2.Tidy s :=
  hg.of_hasEdge hg.wellFormed.addFresh (fun _ => hasEdge_add) fun _ => isVirtual_add

theorem Named.add (hg : g.Named) (ha : o.isVirtual = true ↔ ∃ k, a = numbered k) : (g.add o a).2.Named := by
  intro n hn
  by_cases hl : n = g.slots.length
  case pos => simpa [hl, isVirtual_add_length, aliasName_add] using ha
  case neg =>
    have hn : g.contains n = true := by simpa [WellFormed.contains_add, hl] using hn
    simpa [isVirtual_add hn, aliasName_add, hl] using hg n hn

theorem keeps_addFresh (hg : g.Indexed) (ho : o.isVirtual = true) : Keeps g (g.addFresh o).2 where
  realNodes := by
    have h : (g.addFresh o).2.realNodes = g.realNodes ++ _ := realNodes_add (hg.withLast g.nextAlias)
    simpa [ho] using h
  node? n hn := by
    have hlt := lt_of_contains (hg.mem_realNodes.mp hn).1
    rw [node?_addFresh, if_neg (Nat.ne_of_lt hlt)]
  aliasName n hn := by
    have hlt := lt_of_contains (hg.mem_realNodes.mp hn).1
    rw [aliasName_addFresh, if_neg (Nat.ne_of_lt hlt)]
  named h := Named.add (g := { g with lastAlias := g.nextAlias }) h (by simp [ho])

-- Joins on the column leave the node with one column, if it has to have just one.
def Takes (s : Schema) (g : QueryGraph) (n : Nat) (c : ColumnRef) : Prop :=
  g.isVirtual n = true → ∀ d, g.Uses s ⟨n, d⟩ → d = c

theorem relates_addEdge_of_pairs (hk : (s.key key).pairs = [(u, v)]) :
    (g.addEdge source key target).2.Relates s = Either (g.Relates s) (Pair ⟨source, u⟩ ⟨target, v⟩) := by
  funext ⟨n, c⟩ ⟨m, d⟩
  simp only [Relates, hasEdge_addEdge, Either, Pair, eq_iff_iff]
  constructor
  · rintro ⟨x, rfl | hx, hs, ht, hp⟩
    case inl =>
      rw [hk, List.mem_singleton] at hp
      cases hp
      exact .inr ⟨by rw [← hs], by rw [← ht]⟩
    case inr => exact .inl ⟨x, hx, hs, ht, hp⟩
  · rintro (⟨x, hx, h⟩ | ⟨⟨⟩, ⟨⟩⟩)
    case inl => exact ⟨x, .inr hx, h⟩
    case inr => exact ⟨_, .inl rfl, rfl, rfl, by rw [hk]; exact List.mem_singleton_self _⟩

theorem relates_addEdge (hk : IsProper s key u v) :
    (g.addEdge source key target).2.Relates s = Either (g.Relates s) (Pair ⟨source, u⟩ ⟨target, v⟩) :=
  relates_addEdge_of_pairs hk.pairs

protected theorem Tidy.addEdge (hg : g.Tidy s) (hk : IsProper s key u v) (hs : g.contains source = true)
    (ht : g.contains target = true) (hu : g.Takes s source u) (hv : g.Takes s target v)
    (hne : source = target → g.isVirtual source = false) : (g.addEdge source key target).2.Tidy s := by
  have hnodes : SameNodes g (g.addEdge source key target).2 := sameNodes_addEdge
  have huses : ∀ p, (g.addEdge source key target).2.Uses s p →
      g.Uses s p ∨ p = ⟨source, u⟩ ∨ p = ⟨target, v⟩ := by
    intro p hp
    simp only [Uses, relates_addEdge hk] at hp ⊢
    rcases hp with ⟨q, (h | h) | (h | h)⟩
    · exact .inl ⟨q, .inl h⟩
    · exact .inr (.inl h.1)
    · exact .inl ⟨q, .inr h⟩
    · exact .inr (.inr h.2)
  constructor
  case wellFormed => exact hg.wellFormed.addEdge hs ht
  case proper =>
    intro x hx
    cases hasEdge_addEdge.mp hx
    case inl h => exact h ▸ ⟨u, v, hk⟩
    case inr h => exact hg.proper x h
  case single =>
    intro n c d hn hc hd
    rw [hnodes.isVirtual] at hn
    -- All columns of the node that are used are the one that it takes.
    have only : ∀ e, (g.addEdge source key target).2.Uses s ⟨n, e⟩ →
        g.Uses s ⟨n, e⟩ ∨ (n = source ∧ e = u) ∨ (n = target ∧ e = v) := by
      intro e he
      simpa using huses _ he
    rcases only c hc with hc | ⟨rfl, rfl⟩ | ⟨rfl, rfl⟩ <;> rcases only d hd with hd | ⟨h, rfl⟩ | ⟨h, rfl⟩
    · exact hg.single n c d hn hc hd
    · exact hu (h ▸ hn) c (h ▸ hc)
    · exact hv (h ▸ hn) c (h ▸ hc)
    · exact (hu hn d hd).symm
    · rfl
    · exact absurd hn (by simp [hne h])
    · exact (hv hn d hd).symm
    · exact absurd hn (by simp [h, hne h.symm])
    · rfl

end QueryGraph

end Subplans
