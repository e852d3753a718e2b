import Subplans.Proofs.Merge.Aliases

/-!
Equal edges in mergers.

Only edges between nodes that are not virtual can come to be equal in a merger, and only where two or more joins are
added (`merge_once`): equal edges are removed no sooner than a virtual node is redundant, and an added edge that is
equal to another one makes its virtual end redundant.
-/

namespace Subplans.QueryGraph

variable {s : Schema} {g t source first second : QueryGraph} {key last next target added : Nat} {natural : Bool}
  {π ρ : Nat → Nat} {x : Edge} {o : Occurrence} {r : Redundancy} {joins : List EquivalenceJoin}

-- No two edges from or to a virtual node are the same join.
def SimpleAtVirtual (g : QueryGraph) : Prop :=
  ∀ x, g.isVirtual x.source = true ∨ g.isVirtual x.target = true → g.Once x

theorem Simple.atVirtual (h : g.Simple) : g.SimpleAtVirtual :=
  fun x _ => h x

theorem once_addEdge (hne : x = ⟨last, key, next⟩ → ¬g.HasEdge x) (h : g.Once x) :
    (g.addEdge last key next).2.Once x := by
  intro e e' he he'
  rw [edge?_addEdge] at he he'
  split at he <;> split at he'
  case isTrue.isTrue h h' => rw [h, h']
  case isTrue.isFalse => exact absurd ⟨e', he'⟩ (hne (Option.some.inj he).symm)
  case isFalse.isTrue => exact absurd ⟨e, he⟩ (hne (Option.some.inj he').symm)
  case isFalse.isFalse => exact h e e' he he'

-- An added edge that is equal to another one and has a virtual end makes a node redundant.
theorem SimpleAtVirtual.addEdge (hg : g.Wired) (h : g.SimpleAtVirtual) (hs : last < g.slots.length)
    (ht : next < g.slots.length) :
    ((g.addEdge last key next).2.mergeVirtual last g.edges.length next).1.SimpleAtVirtual := by
  have hsame : SameNodes g (g.addEdge last key next).2 := sameNodes_addEdge
  have hwired : (g.addEdge last key next).2.Wired := hg.addEdge hs ht
  have hadded : (g.addEdge last key next).2.edge? g.edges.length = some ⟨last, key, next⟩ := by simp [edge?_addEdge]
  cases hr : (g.addEdge last key next).2.findRedundant last g.edges.length next
  case some => exact (simple_mergeVirtual hr).atVirtual
  case none =>
    rw [mergeVirtual_of_none hr]
    intro x hv
    rw [hsame.isVirtual, hsame.isVirtual] at hv
    refine once_addEdge ?_ (h x hv)
    rintro rfl ⟨e, he⟩
    have hne : e ≠ g.edges.length := Nat.ne_of_lt (lt_of_edge? he)
    have he' : (g.addEdge last key next).2.edge? e = some ⟨last, key, next⟩ := by rw [edge?_addEdge, if_neg hne, he]
    have ⟨htarget, hsource⟩ := redundancy?_eq_none.mp (redundancy?_of_findRedundant hwired hr hne he' hadded rfl)
    simp_all [hsame.isVirtual]

-- The edges are in step with the lists of nodes, and no two at a virtual node are equal.
structure Neat (g : QueryGraph) : Prop where
  wired  : g.Wired
  simple : g.SimpleAtVirtual

theorem SimpleAtVirtual.addFresh (hg : g.Wired) (h : g.SimpleAtVirtual) : (g.addFresh o).2.SimpleAtVirtual := by
  intro x hv e e' he he'
  -- No edge ends at the new node.
  have hs : x.source ≠ g.slots.length := Nat.ne_of_lt (hg.source_lt e x he)
  have ht : x.target ≠ g.slots.length := Nat.ne_of_lt (hg.target_lt e x he)
  rw [isVirtual, isVirtual, node?_addFresh, node?_addFresh, if_neg hs, if_neg ht] at hv
  exact h x hv e e' he he'

namespace Neat

protected theorem addFresh (hg : g.Neat) : (g.addFresh o).2.Neat where
  wired := hg.wired.addFresh
  simple := hg.simple.addFresh hg.wired

theorem addStep (hg : g.Neat) (key : Nat) (natural : Bool) (hl : last < g.slots.length)
    (hn : next < g.slots.length) :
    (g.addStep key natural last next).1.Neat ∧
    (g.addStep key natural last next).1.slots.length = g.slots.length ∧
    (g.addStep key natural last next).2 < g.slots.length := by
  cases natural
  case false =>
    have hspans : Spans _ (g.addEdge next key last).2 next last :=
      ⟨hg.wired.addEdge hn hl, sameNodes_addEdge.length, hn, hl⟩
    have h := hspans.mergeVirtual g.edges.length
    exact ⟨⟨h.wired, hg.simple.addEdge hg.wired hn hl⟩, h.length, h.first_lt⟩
  case true =>
    have hspans : Spans _ (g.addEdge last key next).2 last next :=
      ⟨hg.wired.addEdge hl hn, sameNodes_addEdge.length, hl, hn⟩
    have h := hspans.mergeVirtual g.edges.length
    exact ⟨⟨h.wired, hg.simple.addEdge hg.wired hl hn⟩, h.length, h.second_lt⟩

theorem addConnection {w : Connection} {pending : Option (Nat × Bool)} (hg : g.Neat) (hl : last < g.slots.length)
    (ht : target < g.slots.length) : (addConnection s target g last pending w).Neat ∧
      g.slots.length ≤ (addConnection s target g last pending w).slots.length := by
  apply addConnection_run
    (P := fun g' last => g'.Neat ∧ g.slots.length ≤ g'.slots.length ∧ last < g'.slots.length)
    (Q := fun g' => g'.Neat ∧ g.slots.length ≤ g'.slots.length)
  case hnone => exact fun ⟨hneat, hle, _⟩ => ⟨hneat, hle⟩
  case hlast =>
    intro g' last key natural ⟨hneat, hle, hlt⟩
    have ⟨hneat, hstay, _⟩ := hneat.addStep key natural hlt (Nat.lt_of_lt_of_le ht hle)
    exact ⟨hneat, hstay.symm ▸ hle⟩
  case hstep =>
    intro g' last key natural t ⟨hneat, hle, hlt⟩
    have hlength : (g'.addFresh (.virtual s t)).2.slots.length = g'.slots.length + 1 := length_add
    have hnode : (g'.addFresh (.virtual s t)).2.Neat := hneat.addFresh
    have hl : last < (g'.addFresh (.virtual s t)).2.slots.length := by omega
    have hn : g'.slots.length < (g'.addFresh (.virtual s t)).2.slots.length := by omega
    have ⟨hneat, hstay, harrive⟩ := hnode.addStep key natural hl hn
    exact ⟨hneat, by omega, by omega⟩
  case h => exact ⟨hg, Nat.le_refl _, hl⟩

theorem addConnections (hg : g.Neat)
    (hj : ∀ j ∈ joins, π j.first < g.slots.length ∧ ρ j.second < g.slots.length) :
    (joins.foldl (fun g j => QueryGraph.addConnection s (ρ j.second) g (π j.first) none j.connection) g).Neat := by
  refine (List.foldlRecOn (motive := fun g' : QueryGraph => g'.Neat ∧ g.slots.length ≤ g'.slots.length) joins _
    ⟨hg, Nat.le_refl _⟩ ?_).1
  intro g' ⟨hneat, hle⟩ j hmem
  have ⟨hfirst, hsecond⟩ := hj j hmem
  have hadd : (QueryGraph.addConnection s (ρ j.second) g' (π j.first) none j.connection).Neat ∧ _ :=
    hneat.addConnection (Nat.lt_of_lt_of_le hfirst hle) (Nat.lt_of_lt_of_le hsecond hle)
  exact ⟨hadd.1, Nat.le_trans hle hadd.2⟩

end Neat

section

variable {B : Nat → Prop} {u v : Nat}

-- No edge leads over the border of `B`.
def Uncrossed (B : Nat → Prop) (g : QueryGraph) : Prop :=
  ∀ x, g.HasEdge x → (B x.source ↔ B x.target)

-- The edge lies on this side of the border, and nothing leads over.
structure Before (B : Nat → Prop) (g : QueryGraph) (first second : Nat) : Prop where
  spans     : Spans g.slots.length g first second
  uncrossed : Uncrossed B g
  first     : ¬B first
  second    : ¬B second

-- Of two nodes at the other ends of edges that share one, both lie on the same side.
theorem Before.round (h : Before B g u v) (hr : g.findRedundant u added v = some r) :
    Before B ((g.collapse r).dedupeEdges added).1 r.first r.second := by
  have ⟨hkeep, hspans⟩ := h.spans.round hr
  have hdedup : Deduped (g.collapse r) added _ _ := deduped_dedupeEdges
  have ⟨id, e, _, _, he, _, _, hredundant⟩ := redundant_of_findRedundant hr
  have hsides : ¬B r.keep ∧ ¬B r.drop ∧ ¬B r.first ∧ ¬B r.second := by
    have hiff := h.uncrossed e ⟨id, he⟩
    have hfirst := h.first
    have hsecond := h.second
    cases hredundant <;> simp_all
  have ⟨hkeepB, hdropB, hfirst, hsecond⟩ := hsides
  have hrename : ∀ n, B (rename r.drop r.keep n) ↔ B n := by
    intro n
    unfold rename
    split
    case isTrue hn => simp [hn, hkeepB, hdropB]
    case isFalse => exact .rfl
  constructor
  case spans => exact hspans.length.symm ▸ hspans
  case uncrossed =>
    intro x hx
    have ⟨e, he⟩ := (hdedup.hasEdge x).mp hx
    rw [edge?_collapse h.spans.wired hkeep] at he
    have ⟨y, hy, hyx⟩ := Option.map_eq_some_iff.mp he
    rw [← hyx, Edge.map, hrename, hrename]
    exact h.uncrossed y ⟨e, hy⟩
  case first => exact hfirst
  case second => exact hsecond

theorem Before.mergeVirtual (h : Before B g u v) : Before B (g.mergeVirtual u added v).1
    (g.mergeVirtual u added v).2.1 (g.mergeVirtual u added v).2.2 :=
  have ⟨_, h⟩ := mergeVirtual_run (P := fun g u _ v => Before B g u v)
    (fun h hr => h.round hr) h
  h

-- An edge that no other is equal to is not the second of equal ones.
theorem Simple.addEdge (h : g.Simple) (hne : ¬g.HasEdge ⟨last, key, next⟩) :
    ((g.addEdge last key next).2.mergeVirtual last added next).1.Simple := by
  cases hr : (g.addEdge last key next).2.findRedundant last added next
  case some => exact simple_mergeVirtual hr
  case none =>
    rw [mergeVirtual_of_none hr]
    exact fun x => once_addEdge (fun hx => hx ▸ hne) (h x)

-- A walk has not come over the border so far.
structure Near (B : Nat → Prop) (g : QueryGraph) (last : Nat) : Prop where
  wired     : g.Wired
  simple    : g.Simple
  uncrossed : Uncrossed B g
  bounded   : ∀ n, B n → n < g.slots.length
  last_lt   : last < g.slots.length
  last      : ¬B last

-- An edge on this side that is new is not equal to another one, and stays on this side.
theorem before_addEdge (added : Nat) (hg : g.Wired) (hs : g.Simple) (hcross : Uncrossed B g) (hu : u < g.slots.length)
    (hv : v < g.slots.length) (hB : ¬B u ∧ ¬B v) (hne : ¬g.HasEdge ⟨u, key, v⟩) :
    Before B ((g.addEdge u key v).2.mergeVirtual u added v).1 ((g.addEdge u key v).2.mergeVirtual u added v).2.1
      ((g.addEdge u key v).2.mergeVirtual u added v).2.2 ∧
    ((g.addEdge u key v).2.mergeVirtual u added v).1.Simple ∧
    ((g.addEdge u key v).2.mergeVirtual u added v).1.slots.length = g.slots.length := by
  have hlength : (g.addEdge u key v).2.slots.length = g.slots.length := sameNodes_addEdge.length
  have hspans : Spans g.slots.length (g.addEdge u key v).2 u v := ⟨hg.addEdge hu hv, hlength, hu, hv⟩
  have hbefore : Before B (g.addEdge u key v).2 u v := by
    refine ⟨hlength.symm ▸ hspans, fun x hx => ?_, hB.1, hB.2⟩
    cases hasEdge_addEdge.mp hx
    case inl heq => simp [heq, hB]
    case inr hx => exact hcross x hx
  exact ⟨hbefore.mergeVirtual, hs.addEdge hne, (hspans.mergeVirtual added).length⟩

namespace Near

theorem addStep_fresh (h : Near B g last) :
    Near B ((g.addFresh o).2.addStep key natural last g.slots.length).1
      ((g.addFresh o).2.addStep key natural last g.slots.length).2 := by
  have hlength : (g.addFresh o).2.slots.length = g.slots.length + 1 := length_add
  have hl : last < (g.addFresh o).2.slots.length := by
    have := h.last_lt
    omega
  have hn : g.slots.length < (g.addFresh o).2.slots.length := by omega
  have hnew : ¬B g.slots.length := fun hB => Nat.lt_irrefl _ (h.bounded _ hB)
  have hbounded : ∀ n, B n → n < (g.addFresh o).2.slots.length := by
    intro n hB
    have := h.bounded n hB
    omega
  cases natural
  case false =>
    have hne : ¬(g.addFresh o).2.HasEdge ⟨g.slots.length, key, last⟩ :=
      fun ⟨e, he⟩ => Nat.lt_irrefl _ (h.wired.source_lt e _ he)
    have ⟨hbefore, hsimple, hstay⟩ := before_addEdge g.edges.length h.wired.addFresh h.simple
      h.uncrossed hn hl ⟨hnew, h.last⟩ hne
    exact ⟨hbefore.spans.wired, hsimple, hbefore.uncrossed, hstay.symm ▸ hbounded, hbefore.spans.first_lt,
      hbefore.first⟩
  case true =>
    have hne : ¬(g.addFresh o).2.HasEdge ⟨last, key, g.slots.length⟩ :=
      fun ⟨e, he⟩ => Nat.lt_irrefl _ (h.wired.target_lt e _ he)
    have ⟨hbefore, hsimple, hstay⟩ := before_addEdge g.edges.length h.wired.addFresh h.simple
      h.uncrossed hl hn ⟨h.last, hnew⟩ hne
    exact ⟨hbefore.spans.wired, hsimple, hbefore.uncrossed, hstay.symm ▸ hbounded, hbefore.spans.second_lt,
      hbefore.second⟩

-- The only edge over the border is not equal to another one.
theorem addStep_target (h : Near B g last) (ht : B target) : (g.addStep key natural last target).1.Simple := by
  cases natural
  case false => exact h.simple.addEdge fun hx => h.last ((h.uncrossed _ hx).mp ht)
  case true => exact h.simple.addEdge fun hx => h.last ((h.uncrossed _ hx).mpr ht)

theorem addConnection {w : Connection} {pending : Option (Nat × Bool)} (h : Near B g last) (ht : B target) :
    (addConnection s target g last pending w).Simple := by
  apply addConnection_run (P := Near B) (Q := Simple)
  case hnone => exact Near.simple
  case hlast => exact fun h => h.addStep_target ht
  case hstep => exact fun _ _ _ h => h.addStep_fresh
  case h => exact h

end Near

end

-- An edge is one of those that were there, or the copy of another one.
theorem Copied.edge_cases {e : Nat} (h : Copied t source g π) (he : g.edge? e = some x) :
    t.edge? e = some x ∨ t.edges.length ≤ e ∧ ∃ id y, source.edgeIds[e - t.edges.length]? = some id ∧
      source.edge? id = some y ∧ y.map π = x := by
  rw [edge?, h.edges] at he
  by_cases hlt : e < t.edges.length
  case pos =>
    rw [List.getElem?_append_left hlt] at he
    exact .inl he
  case neg =>
    rw [List.getElem?_append_right (Nat.le_of_not_lt hlt), List.getElem?_map] at he
    cases hid : source.edgeIds[e - t.edges.length]?
    case none => simp [hid] at he
    case some id =>
      rw [hid] at he
      obtain ⟨y, hy, hyx⟩ := Option.map_eq_some_iff.mp he
      exact .inr ⟨Nat.le_of_not_lt hlt, id, y, rfl, hy, hyx⟩

theorem Copied.not_hasEdge {y : Edge} (h : Copied t source g π) (ht : t.WellFormed) (hs : source.WellFormed)
    (hy : source.HasEdge y) : ¬t.HasEdge (y.map π) := by
  intro hx
  have hnew := h.new y.source (hs.contains_source hy)
  have hold : t.contains (π y.source) = true := ht.contains_source hx
  simp [hold] at hnew

theorem Copied.edge_inj {y z : Edge} (h : Copied t source g π) (hs : source.WellFormed) (hy : source.HasEdge y)
    (hz : source.HasEdge z) (heq : y.map π = z.map π) : y = z := by
  have ⟨hsource, hkey, htarget⟩ := Edge.mk.inj heq
  have hsource := h.inj _ _ (hs.contains_source hy) (hs.contains_source hz) hsource
  have htarget := h.inj _ _ (hs.contains_target hy) (hs.contains_target hz) htarget
  cases y
  cases z
  simp_all

-- A join stands in one of the two graphs, and there at one edge.
theorem Copied.once (h : Copied t source g π) (ht : t.WellFormed) (hs : source.WellFormed) (hkept : t.Once x)
    (hplaced : ∀ y, source.HasEdge y → y.map π = x → source.Once y) : g.Once x := by
  intro e e' he he'
  rcases h.edge_cases he with hk | ⟨hle, id, y, hid, hy, hyx⟩ <;>
    rcases h.edge_cases he' with hk' | ⟨hle', id', y', hid', hy', hyx'⟩
  · exact hkept e e' hk hk'
  · exact absurd (hyx' ▸ ⟨e, hk⟩) (h.not_hasEdge ht hs ⟨id', hy'⟩)
  · exact absurd (hyx ▸ ⟨e', hk'⟩) (h.not_hasEdge ht hs ⟨id, hy⟩)
  · have hyy : y = y' := h.edge_inj hs ⟨id, hy⟩ ⟨id', hy'⟩ (hyx.trans hyx'.symm)
    have hids : id = id' := hplaced y ⟨id, hy⟩ hyx id id' hy (hyy ▸ hy')
    have hlt := (List.getElem?_eq_some_iff.mp hid).1
    have := (List.getElem?_inj hlt nodup_edgeIds).mp (hid.trans (hids ▸ hid'.symm))
    omega

theorem Copied.simpleAtVirtual (h : Copied t source g π) (ht : t.WellFormed) (hs : source.WellFormed)
    (hkept : t.SimpleAtVirtual) (hplaced : source.SimpleAtVirtual) : g.SimpleAtVirtual := by
  intro x hv
  by_cases hx : t.HasEdge x
  case pos =>
    apply h.once ht hs
    case hkept =>
      rw [h.isVirtual_kept (ht.contains_source hx), h.isVirtual_kept (ht.contains_target hx)] at hv
      exact hkept x hv
    case hplaced => exact fun y hy hyx => absurd (hyx ▸ hx) (h.not_hasEdge ht hs hy)
  case neg =>
    apply h.once ht hs
    case hkept => exact fun e _ he _ => absurd ⟨e, he⟩ hx
    case hplaced =>
      rintro y hy rfl
      rw [Edge.map, h.isVirtual_placed (hs.contains_source hy), h.isVirtual_placed (hs.contains_target hy)] at hv
      exact hplaced y hv

theorem Copied.simple (h : Copied t source g π) (ht : t.WellFormed) (hs : source.WellFormed) (hkept : t.Simple)
    (hplaced : source.Simple) : g.Simple :=
  fun x => h.once ht hs (hkept x) fun y _ _ => hplaced y

-- No edge leads from one of two graphs that are side by side to the other.
theorem Copied.uncrossed (h : Copied t source g π) (ht : t.WellFormed) (hs : source.WellFormed) :
    Uncrossed (fun n => g.contains n = true ∧ t.contains n = false) g := by
  intro x hx
  simp only [h.wellFormed.contains_source hx, h.wellFormed.contains_target hx, true_and]
  cases (h.hasEdge x).mp hx
  case inl hx => simp [ht.contains_source hx, ht.contains_target hx]
  case inr hx =>
    have ⟨y, hy, hyx⟩ := hx
    simp [← hyx, Edge.map, h.new _ (hs.contains_source hy), h.new _ (hs.contains_target hy)]

theorem simple_empty : Simple empty := by
  intro x e e' he
  simp [edge?, empty] at he

theorem Resolved.contains {j : EquivalenceJoin} (hf : first.WellFormed) (hs : second.WellFormed)
    (hj : Resolved s first second j) : first.contains j.first = true ∧ second.contains j.second = true := by
  have ⟨_, _, h⟩ := hj
  have ⟨_, _, hcd, _⟩ := equates_of_resolve h
  have ⟨hfirst, hsecond⟩ := hcd.real hf hs
  exact ⟨(hf.mem_realNodes.mp hfirst).1, (hs.mem_realNodes.mp hsecond).1⟩

theorem merge_once (hf : first.WellFormed) (hs : second.WellFormed) (hj : ∀ j ∈ joins, Resolved s first second j) :
    (first.SimpleAtVirtual → second.SimpleAtVirtual → (merge s first second joins).SimpleAtVirtual) ∧
    (first.Simple → second.Simple → joins.length ≤ 1 → (merge s first second joins).Simple) := by
  obtain ⟨π, ρ, g₁, g, h₁, h₂, hmerge⟩ := merge_copies hf hs
  have hwired := h₂.wellFormed.wired
  have hplaces : ∀ j ∈ joins, g₁.contains (π j.first) = true ∧ g.contains (π j.first) = true ∧
      g.contains (ρ j.second) = true ∧ g₁.contains (ρ j.second) = false := by
    intro j hmem
    obtain ⟨hfirst, hsecond⟩ := (hj j hmem).contains hf hs
    have hkept : g₁.contains (π j.first) = true := by rwa [contains, h₁.placed _ hfirst]
    refine ⟨hkept, ?_, ?_, h₂.new _ hsecond⟩
    case refine_1 => rwa [contains, h₂.node? _ hkept]
    case refine_2 => rwa [contains, h₂.placed _ hsecond]
  rw [hmerge]
  constructor
  case left =>
    intro hfirst hsecond
    have hneat : Neat g := by
      refine ⟨hwired, h₂.simpleAtVirtual h₁.wellFormed hs ?_ hsecond⟩
      exact h₁.simpleAtVirtual .empty hf simple_empty.atVirtual hfirst
    refine (hneat.addConnections fun j hmem => ?_).simple
    obtain ⟨_, hl, ht, _⟩ := hplaces j hmem
    exact ⟨lt_of_contains hl, lt_of_contains ht⟩
  case right =>
    intro hfirst hsecond hone
    have hsimple : g.Simple := h₂.simple h₁.wellFormed hs (h₁.simple .empty hf simple_empty hfirst) hsecond
    cases joins
    case nil => exact hsimple
    case cons j rest =>
      have hrest : rest = [] := by simpa using hone
      subst hrest
      obtain ⟨hkept, hl, ht, hnew⟩ := hplaces j (List.mem_singleton_self j)
      have hnear : Near (fun n => g.contains n = true ∧ g₁.contains n = false) g (π j.first) := by
        have hbounded : ∀ n, g.contains n = true ∧ g₁.contains n = false → n < g.slots.length :=
          fun n hB => lt_of_contains hB.1
        exact ⟨hwired, hsimple, h₂.uncrossed h₁.wellFormed hs, hbounded, lt_of_contains hl, by simp [hkept]⟩
      exact hnear.addConnection ⟨ht, hnew⟩

theorem simple_of_lt (h : ∀ e < g.edges.length, ∀ e' < g.edges.length, (g.edge? e).isSome = true →
    g.edge? e = g.edge? e' → e = e') : g.Simple := by
  intro x e e' he he'
  exact h e (lt_of_edge? he) e' (lt_of_edge? he') (by simp [he]) (he.trans he'.symm)

theorem simple_sameFilm : sameFilm.Simple :=
  simple_of_lt (by decide +kernel)

theorem simple_alone {table : Nat} {a : String} : (alone table a).Simple :=
  simple_empty

-- A link and an information about one film are joined with it.
def withFilm : List EquivalenceJoin :=
  [⟨0, [.join 0 true], 0⟩, ⟨1, [.join 1 true], 0⟩]

theorem resolved_withFilm : ∀ j ∈ withFilm, Resolved filmsSchema sameFilm (alone 0 "t") j := by
  have hlink : resolve filmsSchema sameFilm (alone 0 "t") ("ml", "film_id") ("t", "id") =
      .join ⟨0, [.join 0 true], 0⟩ := by
    decide +kernel
  have hinfo : resolve filmsSchema sameFilm (alone 0 "t") ("mi", "film_id") ("t", "id") =
      .join ⟨1, [.join 1 true], 0⟩ := by
    decide +kernel
  simpa [withFilm] using And.intro ⟨_, _, hlink⟩ ⟨_, _, hinfo⟩

theorem merge_once_sameFilm : sameFilm.WellFormed ∧ (alone 0 "t").WellFormed ∧
    (∀ j ∈ withFilm, Resolved filmsSchema sameFilm (alone 0 "t") j) ∧
    (merge filmsSchema sameFilm (alone 0 "t") withFilm).SimpleAtVirtual ∧
    (merge filmsSchema sameFilm (alone 0 "t") (withFilm.take 1)).Simple := by
  have hone : ∀ j ∈ withFilm.take 1, Resolved filmsSchema sameFilm (alone 0 "t") j :=
    fun j h => resolved_withFilm j (List.mem_of_mem_take h)
  refine ⟨wellFormed_sameFilm, wellFormed_alone, resolved_withFilm, ?_, ?_⟩
  · exact (merge_once wellFormed_sameFilm wellFormed_alone resolved_withFilm).1 simple_sameFilm.atVirtual
      simple_alone.atVirtual
  · exact (merge_once wellFormed_sameFilm wellFormed_alone hone).2 simple_sameFilm simple_alone (by decide)

-- The second of two joins adds an edge that is there already.
theorem not_once_sameFilm : sameFilm.WellFormed ∧ (alone 0 "t").WellFormed ∧ sameFilm.Simple ∧ (alone 0 "t").Simple ∧
    (∀ j ∈ withFilm, Resolved filmsSchema sameFilm (alone 0 "t") j) ∧ withFilm.Nodup ∧
    (merge filmsSchema sameFilm (alone 0 "t") withFilm).edge? 1 = some ⟨1, 1, 3⟩ ∧
    (merge filmsSchema sameFilm (alone 0 "t") withFilm).edge? 3 = some ⟨1, 1, 3⟩ :=
  ⟨wellFormed_sameFilm, wellFormed_alone, simple_sameFilm, simple_alone, resolved_withFilm, by decide,
    by decide +kernel, by decide +kernel⟩

end Subplans.QueryGraph
