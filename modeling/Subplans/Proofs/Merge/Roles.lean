import Subplans.Proofs.Merge.Aliases

/-!
Virtual nodes in one role.

Two virtual nodes that one node refers to by the same key, or that refer to it by the same key, are rivals for one
role. Making nodes one looks for rivals only around the edge that was added, and this is enough as long as every edge
has an end that is not virtual: then nodes that are made one have no rivals elsewhere (`Settling.round`). So where no
connection passes more than one table, no rivals are left in a merger (`merge_settled`).
-/

namespace Subplans.QueryGraph

variable {s : Schema} {g g' t source first second : QueryGraph} {n u v key last next target added : Nat}
  {natural : Bool} {π ρ : Nat → Nat} {x y e : Edge} {o : Occurrence} {r : Redundancy} {joins : List EquivalenceJoin}

-- The edges belong to one key and share one end, and have different virtual nodes at the other.
inductive Rivals (g : QueryGraph) (x y : Edge) : Prop
  | targets : x.key = y.key → x.source = y.source → g.isVirtual x.target = true → g.isVirtual y.target = true →
    x.target ≠ y.target → Rivals g x y
  | sources : x.key = y.key → x.target = y.target → g.isVirtual x.source = true → g.isVirtual y.source = true →
    x.source ≠ y.source → Rivals g x y

theorem Rivals.symm (h : g.Rivals x y) : g.Rivals y x := by
  cases h
  case targets hk hs hx hy hne => exact .targets hk.symm hs.symm hy hx hne.symm
  case sources hk ht hx hy hne => exact .sources hk.symm ht.symm hy hx hne.symm

-- The edges of a graph are rivals in another one only if they are so in the graph, if that has the same virtual nodes
-- as far as they go.
theorem Rivals.of_isVirtual (h : g'.Rivals x y) (hg : g.WellFormed)
    (hv : ∀ n, g.contains n = true → g'.isVirtual n = g.isVirtual n) (hx : g.HasEdge x) (hy : g.HasEdge y) :
    g.Rivals x y := by
  have hxs := hv _ (hg.contains_source hx)
  have hxt := hv _ (hg.contains_target hx)
  have hys := hv _ (hg.contains_source hy)
  have hyt := hv _ (hg.contains_target hy)
  cases h
  case targets hk hs hvx hvy hne => exact .targets hk hs (hxt ▸ hvx) (hyt ▸ hvy) hne
  case sources hk ht hvx hvy hne => exact .sources hk ht (hxs ▸ hvx) (hys ▸ hvy) hne

-- No two virtual nodes are in one role.
def Settled (g : QueryGraph) : Prop :=
  ∀ x y, g.HasEdge x → g.HasEdge y → ¬g.Rivals x y

-- Every edge has an end that is not virtual.
def Anchored (g : QueryGraph) : Prop :=
  ∀ x, g.HasEdge x → g.isVirtual x.source = false ∨ g.isVirtual x.target = false

theorem Anchored.loopless (h : g.Anchored) (x : Edge) (hx : g.HasEdge x) (heq : x.source = x.target) :
    g.isVirtual x.source = false := by
  cases h x hx
  case inl hs => exact hs
  case inr ht => exact heq ▸ ht

-- The only rivals that there may be are those of the added edge.
structure Settling (g : QueryGraph) (first added second : Nat) : Prop where
  wellFormed : g.WellFormed
  anchored   : g.Anchored
  edge       : ∃ k, g.edge? added = some ⟨first, k, second⟩
  others     : ∀ id id' x y, id ≠ added → id' ≠ added → g.edge? id = some x → g.edge? id' = some y → ¬g.Rivals x y

-- What is virtual after a node is taken out was so before.
theorem isVirtual_of_rename (hv : g.isVirtual r.drop = true)
    (h : (g.collapse r).isVirtual (rename r.drop r.keep n) = true) : g.isVirtual n = true := by
  by_cases hn : n = r.drop
  case pos => exact hn ▸ hv
  case neg =>
    rw [rename_of_ne hn] at h
    by_cases hne : r.drop = r.keep
    case pos => rwa [collapse_same hne] at h
    case neg => rwa [isVirtual, node?_collapse hne, if_neg hn] at h

theorem isVirtual_rename (hv : g.isVirtual r.drop = true) (h : g.isVirtual n = false) :
    rename r.drop r.keep n = n ∧ (g.collapse r).isVirtual n = false := by
  have hn : n ≠ r.drop := fun hn => by simp [hn, hv] at h
  have hrename : rename r.drop r.keep n = n := rename_of_ne hn
  refine ⟨hrename, ?_⟩
  cases hvirtual : (g.collapse r).isVirtual n
  case false => rfl
  case true =>
    have := isVirtual_of_rename hv (hrename.symm ▸ hvirtual)
    simp [h] at this

-- Edges whose ends have been renamed are rivals only if they were so before: the ends that are virtual were different
-- then, and those that are not have stayed.
theorem Rivals.of_rename (hg : g.Anchored) (hx : g.HasEdge x) (hy : g.HasEdge y) (hv : g.isVirtual r.drop = true)
    (h : (g.collapse r).Rivals (x.map (rename r.drop r.keep)) (y.map (rename r.drop r.keep))) : g.Rivals x y := by
  cases h
  case targets hk hs hxt hyt hne =>
    have hxt := isVirtual_of_rename hv hxt
    have hyt := isVirtual_of_rename hv hyt
    have hxs := (hg x hx).resolve_right (by simp [hxt])
    have hys := (hg y hy).resolve_right (by simp [hyt])
    have hs : rename r.drop r.keep x.source = rename r.drop r.keep y.source := hs
    rw [(isVirtual_rename hv hxs).1, (isVirtual_rename hv hys).1] at hs
    exact .targets hk hs hxt hyt fun heq => hne (congrArg (rename r.drop r.keep) heq)
  case sources hk ht hxs hys hne =>
    have hxs := isVirtual_of_rename hv hxs
    have hys := isVirtual_of_rename hv hys
    have hxt := (hg x hx).resolve_left (by simp [hxs])
    have hyt := (hg y hy).resolve_left (by simp [hys])
    have ht : rename r.drop r.keep x.target = rename r.drop r.keep y.target := ht
    rw [(isVirtual_rename hv hxt).1, (isVirtual_rename hv hyt).1] at ht
    exact .sources hk ht hxs hys fun heq => hne (congrArg (rename r.drop r.keep) heq)

theorem Anchored.collapse (hg : g.Anchored) (hw : g.Wired) (hkeep : r.keep < g.slots.length)
    (hv : g.isVirtual r.drop = true) : (g.collapse r).Anchored := by
  rintro x ⟨e, he⟩
  rw [edge?_collapse hw hkeep] at he
  obtain ⟨y, hy, hyx⟩ := Option.map_eq_some_iff.mp he
  rw [← hyx, Edge.map]
  cases hg y ⟨e, hy⟩
  case inl hs =>
    obtain ⟨heq, hreal⟩ := isVirtual_rename hv hs
    exact .inl ((congrArg (g.collapse r).isVirtual heq).trans hreal)
  case inr ht =>
    obtain ⟨heq, hreal⟩ := isVirtual_rename hv ht
    exact .inr ((congrArg (g.collapse r).isVirtual heq).trans hreal)

theorem Anchored.of_sameNodes (hg : g.Anchored) (hsame : SameNodes g g') (hx : ∀ x, g'.HasEdge x → g.HasEdge x) :
    g'.Anchored := by
  intro x h
  rw [hsame.isVirtual, hsame.isVirtual]
  exact hg x (hx x h)

theorem Settling.round (h : g.Settling u added v) (hr : g.findRedundant u added v = some r) :
    Settling ((g.collapse r).dedupeEdges added).1 r.first ((g.collapse r).dedupeEdges added).2 r.second := by
  have ⟨k, hx⟩ := h.edge
  have ⟨id, e, _, _, he, _, _, hredundant⟩ := redundant_of_findRedundant hr
  have hdedup : Deduped (g.collapse r) added _ _ := deduped_dedupeEdges
  have hkeep := Redundant.contains_keep (x := ⟨u, k, v⟩) h.wellFormed ⟨id, he⟩ ⟨added, hx⟩ hredundant
  have hlt := lt_of_contains hkeep
  have hv := hredundant.virtual
  constructor
  case wellFormed => exact hdedup.wellFormed (h.wellFormed.collapse hkeep)
  case anchored =>
    exact (h.anchored.collapse h.wellFormed.wired hlt hv).of_sameNodes hdedup.sameNodes fun x => (hdedup.hasEdge x).mp
  case edge =>
    have ⟨hfirst, hsecond⟩ := Redundant.rename_ends (x := ⟨u, k, v⟩) h.anchored.loopless ⟨id, he⟩ ⟨added, hx⟩
      hredundant
    refine ⟨k, ?_⟩
    rw [hdedup.added, edge?_collapse h.wellFormed.wired hlt, hx, ← hfirst, ← hsecond]
    rfl
  case others =>
    intro id id' x y hne hne' hx hy hrivals
    -- Another edge than the one that stands for the added one now is another one than the added one.
    have other : ∀ {id x}, id ≠ ((g.collapse r).dedupeEdges added).2 →
        ((g.collapse r).dedupeEdges added).1.edge? id = some x →
        id ≠ added ∧ (g.collapse r).HasEdge x ∧ ∃ y, g.edge? id = some y ∧ y.map (rename r.drop r.keep) = x := by
      intro id x hne hx
      have hcollapse := hdedup.edge? id x hx
      refine ⟨fun heq => hne ?_, ⟨id, hcollapse⟩, ?_⟩
      case refine_1 =>
        rw [heq] at hx
        rw [hdedup.stays x hx, heq]
      case refine_2 =>
        rw [edge?_collapse h.wellFormed.wired hlt] at hcollapse
        exact Option.map_eq_some_iff.mp hcollapse
    have ⟨hid, hxc, z, hz, hzx⟩ := other hne hx
    have ⟨hid', hyc, w, hw, hwy⟩ := other hne' hy
    have hrivals := hrivals.of_isVirtual (h.wellFormed.collapse hkeep) (fun _ _ => hdedup.sameNodes.isVirtual) hxc hyc
    rw [← hzx, ← hwy] at hrivals
    exact h.others id id' z w hid hid' hz hw (hrivals.of_rename h.anchored ⟨id, hz⟩ ⟨id', hw⟩ hv)

-- Rivals of the added edge would make a node redundant.
theorem Settling.settled (h : g.Settling u added v) (hnone : g.findRedundant u added v = none) :
    g.Settled := by
  have ⟨k, hadded⟩ := h.edge
  have alone : ∀ {id y}, id ≠ added → g.edge? id = some y → ¬g.Rivals ⟨u, k, v⟩ y := by
    intro id y hne hy hrivals
    have hkey : y.key = k := by
      cases hrivals
      all_goals exact Eq.symm ‹_›
    have ⟨hsource, htarget⟩ := redundancy?_eq_none.mp
      (redundancy?_of_findRedundant h.wellFormed.wired hnone hne hy hadded hkey)
    cases hrivals
    case targets hs _ hv _ => simp [(hsource hs.symm).1] at hv
    case sources ht _ hv _ => simp [(htarget ht.symm).1] at hv
  rintro x y ⟨id, hx⟩ ⟨id', hy⟩ hrivals
  by_cases hid : id = added
  case pos =>
    rw [hid, hadded] at hx
    cases hx
    by_cases hid' : id' = added
    case pos =>
      rw [hid', hadded] at hy
      cases hy
      cases hrivals <;> contradiction
    case neg => exact alone hid' hy hrivals
  case neg =>
    by_cases hid' : id' = added
    case pos =>
      rw [hid', hadded] at hy
      cases hy
      exact alone hid hx hrivals.symm
    case neg => exact h.others id id' x y hid hid' hx hy hrivals

structure Stable (g : QueryGraph) : Prop where
  wellFormed : g.WellFormed
  anchored   : g.Anchored
  settled    : g.Settled

theorem Settling.stable (h : g.Settling u added v) : (g.mergeVirtual u added v).1.Stable ∧
    (g.mergeVirtual u added v).1.contains (g.mergeVirtual u added v).2.1 = true ∧
    (g.mergeVirtual u added v).1.contains (g.mergeVirtual u added v).2.2 = true := by
  have ⟨added', hend, hnone⟩ := mergeVirtual_end (P := Settling) (fun h hr => ?_) h
  case refine_1 =>
    have ⟨_, hx⟩ := h.edge
    exact ⟨h.round hr, size_round h.wellFormed hx hr⟩
  have ⟨_, hx⟩ := hend.edge
  exact ⟨⟨hend.wellFormed, hend.anchored, hend.settled hnone⟩, hend.wellFormed.contains_source ⟨_, hx⟩,
    hend.wellFormed.contains_target ⟨_, hx⟩⟩

namespace Stable

theorem addEdge (hg : g.Stable) (key : Nat) (hu : g.contains u = true) (hv : g.contains v = true)
    (hreal : g.isVirtual u = false ∨ g.isVirtual v = false) :
    Settling (g.addEdge u key v).2 u g.edges.length v := by
  have hsame : SameNodes g (g.addEdge u key v).2 := sameNodes_addEdge
  constructor
  case wellFormed => exact hg.wellFormed.addEdge hu hv
  case anchored =>
    intro x hx
    rw [hsame.isVirtual, hsame.isVirtual]
    cases hasEdge_addEdge.mp hx
    case inl heq => exact heq ▸ hreal
    case inr hx => exact hg.anchored x hx
  case edge => exact ⟨key, by simp [edge?_addEdge]⟩
  case others =>
    intro id id' x y hne hne' hx hy hrivals
    rw [edge?_addEdge, if_neg hne] at hx
    rw [edge?_addEdge, if_neg hne'] at hy
    have hrivals := hrivals.of_isVirtual hg.wellFormed (fun _ _ => hsame.isVirtual) ⟨id, hx⟩ ⟨id', hy⟩
    exact hg.settled x y ⟨id, hx⟩ ⟨id', hy⟩ hrivals

theorem addStep (hg : g.Stable) (key : Nat) (natural : Bool) (hl : g.contains last = true)
    (hn : g.contains next = true) (hreal : g.isVirtual last = false ∨ g.isVirtual next = false) :
    (g.addStep key natural last next).1.Stable ∧
    (g.addStep key natural last next).1.contains (g.addStep key natural last next).2 = true := by
  cases natural
  case false =>
    have ⟨hstable, hfirst, _⟩ := (hg.addEdge key hn hl hreal.symm).stable
    exact ⟨hstable, hfirst⟩
  case true =>
    have ⟨hstable, _, hsecond⟩ := (hg.addEdge key hl hn hreal).stable
    exact ⟨hstable, hsecond⟩

theorem addFresh (hg : g.Stable) : (g.addFresh o).2.Stable := by
  have hold : ∀ n, g.contains n = true → (g.addFresh o).2.isVirtual n = g.isVirtual n := by
    intro n hn
    rw [isVirtual, node?_addFresh, if_neg (Nat.ne_of_lt (lt_of_contains hn)), isVirtual]
  constructor
  case wellFormed => exact hg.wellFormed.addFresh
  case anchored =>
    intro x hx
    rw [hold _ (hg.wellFormed.contains_source hx), hold _ (hg.wellFormed.contains_target hx)]
    exact hg.anchored x hx
  case settled =>
    intro x y hx hy hrivals
    exact hg.settled x y hx hy (hrivals.of_isVirtual hg.wellFormed hold hx hy)

-- A walk over at most one table takes its steps from or to nodes that are not virtual.
theorem addConnection {R : Nat → Bool → ColumnRef → ColumnRef → Prop} {a b : ColumnRef} {w : Connection}
    (hw : Walk R a w b) (hshort : w.joins ≤ 2) (hg : g.Stable) (hl : last ∈ g.realNodes) (ht : target ∈ g.realNodes) :
    (addConnection s target g last none w).Stable := by
  have ⟨hlast, hreal⟩ := hg.wellFormed.mem_realNodes.mp hl
  cases hw
  case single k natural _ =>
    have ⟨htarget, _⟩ := hg.wellFormed.mem_realNodes.mp ht
    exact (hg.addStep k natural hlast htarget (.inl hreal)).1
  case cons k natural c w _ hrest =>
    rw [Connection.joins_cons] at hshort
    cases hrest
    case cons hrest =>
      have := hrest.length_add_one
      rw [Connection.joins_cons] at hshort
      omega
    case single k' natural' _ =>
      have hfresh : Extends g (g.addFresh (.virtual s c.table)).2 := .addFresh hg.wellFormed.indexed c.table
      have hnode : (g.addFresh (.virtual s c.table)).2.Stable := hg.addFresh
      have hnext : (g.addFresh (.virtual s c.table)).2.contains g.slots.length = true := by simp [contains_addFresh]
      have ⟨hlast, hreal⟩ := hnode.wellFormed.mem_realNodes.mp (hfresh.keeps.realNodes ▸ hl)
      have ⟨hstable, harrive⟩ := hnode.addStep k natural hlast hnext (.inl hreal)
      have hstep : Extends _ ((g.addFresh (.virtual s c.table)).2.addStep k natural last g.slots.length).1 :=
        .addStep hfresh.indexed
      have ht := (hfresh.trans hstep).keeps.realNodes ▸ ht
      have ⟨htarget, hreal⟩ := hstable.wellFormed.mem_realNodes.mp ht
      exact (hstable.addStep k' natural' harrive htarget (.inr hreal)).1

theorem addConnections (hg : g.Stable) (hj : ∀ j ∈ joins, π j.first ∈ g.realNodes ∧ ρ j.second ∈ g.realNodes ∧
    j.connection.joins ≤ 2 ∧ ∃ a b, Walk s.bonds.Crosses a j.connection b) :
    (joins.foldl (fun g j => QueryGraph.addConnection s (ρ j.second) g (π j.first) none j.connection) g).Stable := by
  refine (List.foldlRecOn (motive := fun g' : QueryGraph => g'.Stable ∧ g'.realNodes = g.realNodes) joins _
    ⟨hg, rfl⟩ ?_).1
  intro g' ⟨hstable, hsame⟩ j hmem
  have ⟨hfirst, hsecond, hshort, _, _, hw⟩ := hj j hmem
  have hextends : Extends g' (QueryGraph.addConnection s (ρ j.second) g' (π j.first) none j.connection) :=
    extends_addConnection hstable.wellFormed.indexed
  rw [← hsame] at hfirst hsecond
  exact ⟨hstable.addConnection hw hshort hfirst hsecond, hextends.keeps.realNodes.trans hsame⟩

end Stable

namespace Copied

variable (h : Copied t source g π)

include h

theorem anchored (ht : t.WellFormed) (hs : source.WellFormed) (hkept : t.Anchored) (hplaced : source.Anchored) :
    g.Anchored := by
  intro x hx
  cases (h.hasEdge x).mp hx
  case inl hx =>
    rw [h.isVirtual_kept (ht.contains_source hx), h.isVirtual_kept (ht.contains_target hx)]
    exact hkept x hx
  case inr hx =>
    have ⟨y, hy, hyx⟩ := hx
    rw [← hyx, Edge.map, h.isVirtual_placed (hs.contains_source hy), h.isVirtual_placed (hs.contains_target hy)]
    exact hplaced y hy

-- Edges of one graph have no end in common with those of the other.
theorem settled (ht : t.WellFormed) (hs : source.WellFormed) (hkept : t.Settled) (hplaced : source.Settled) :
    g.Settled := by
  have apart : ∀ {x y}, t.HasEdge x → source.HasEdge y → ¬g.Rivals x (y.map π) := by
    intro x y hx hy hrivals
    cases hrivals
    case targets hsource _ _ _ =>
      have hold : t.contains x.source = true := ht.contains_source hx
      rw [hsource, Edge.map, h.new _ (hs.contains_source hy)] at hold
      cases hold
    case sources htarget _ _ _ =>
      have hold : t.contains x.target = true := ht.contains_target hx
      rw [htarget, Edge.map, h.new _ (hs.contains_target hy)] at hold
      cases hold
  intro x y hx hy hrivals
  cases (h.hasEdge x).mp hx
  case inl hx =>
    cases (h.hasEdge y).mp hy
    case inl hy => exact hkept x y hx hy (hrivals.of_isVirtual ht (fun _ => h.isVirtual_kept) hx hy)
    case inr hy =>
      obtain ⟨w, hw, hwy⟩ := hy
      exact apart hx hw (hwy ▸ hrivals)
  case inr hx =>
    obtain ⟨z, hz, hzx⟩ := hx
    cases (h.hasEdge y).mp hy
    case inl hy => exact apart hy hz (hzx ▸ hrivals.symm)
    case inr hy =>
      obtain ⟨w, hw, hwy⟩ := hy
      apply hplaced z w hz hw
      have hzs := h.isVirtual_placed (hs.contains_source hz)
      have hzt := h.isVirtual_placed (hs.contains_target hz)
      have hws := h.isVirtual_placed (hs.contains_source hw)
      have hwt := h.isVirtual_placed (hs.contains_target hw)
      rw [← hzx, ← hwy] at hrivals
      cases hrivals
      case targets hk hsource hvz hvw hne =>
        have hsource := h.inj _ _ (hs.contains_source hz) (hs.contains_source hw) hsource
        exact .targets hk hsource (hzt ▸ hvz) (hwt ▸ hvw) fun heq => hne (congrArg π heq)
      case sources hk htarget hvz hvw hne =>
        have htarget := h.inj _ _ (hs.contains_target hz) (hs.contains_target hw) htarget
        exact .sources hk htarget (hzs ▸ hvz) (hws ▸ hvw) fun heq => hne (congrArg π heq)

theorem stable (ht : t.Stable) (hs : source.Stable) : g.Stable where
  wellFormed := h.wellFormed
  anchored := h.anchored ht.wellFormed hs.wellFormed ht.anchored hs.anchored
  settled := h.settled ht.wellFormed hs.wellFormed ht.settled hs.settled

end Copied

theorem Stable.of_no_edges (hg : g.WellFormed) (hnone : ∀ x, ¬g.HasEdge x) : g.Stable where
  wellFormed := hg
  anchored x hx := absurd hx (hnone x)
  settled x _ hx := absurd hx (hnone x)

section

variable {d : SchemaDescription} (hd : Schema.ofDescription d = .ok s)
  (hshort : ∀ c c' w, s.connection? c c' = some w → w.joins ≤ 2)

include hd hshort

theorem stable_merge (hf : first.Stable) (hs : second.Stable) (hj : ∀ j ∈ joins, Resolved s first second j) :
    (merge s first second joins).Stable := by
  obtain ⟨π, ρ, g₁, g, h₁, h₂, hmerge⟩ := merge_copies hf.wellFormed hs.wellFormed
  have hempty : Stable empty := .of_no_edges .empty (by simp [HasEdge, edge?, empty])
  have hcopies : g.Stable := h₂.stable (h₁.stable hempty hf) hs
  rw [hmerge]
  apply hcopies.addConnections
  intro j hmem
  obtain ⟨_, _, hresolve⟩ := hj j hmem
  obtain ⟨c, c', hequates, hconnection⟩ := equates_of_resolve hresolve
  obtain ⟨hfirst, hsecond⟩ := hequates.real hf.wellFormed hs.wellFormed
  rw [h₂.realNodes h₁.wellFormed hs.wellFormed, h₁.realNodes .empty hf.wellFormed]
  refine ⟨?_, ?_, hshort _ _ _ hconnection, c, c', ?_⟩
  case refine_1 => exact List.mem_append_left _ (List.mem_append_right _ (List.mem_map_of_mem hfirst))
  case refine_2 => exact List.mem_append_right _ (List.mem_map_of_mem hsecond)
  case refine_3 => exact (Schema.loaded_of_ofDescription hd).sound.walk hconnection

theorem Built.stable (hg : Built s g) : g.Stable := by
  induction hg
  case single hwf _ _ hnone => exact .of_no_edges hwf hnone
  case merge hj ihf ihs => exact stable_merge hd hshort ihf ihs hj

theorem merge_settled (hf : Built s first) (hs : Built s second) (hj : ∀ j ∈ joins, Resolved s first second j) :
    (merge s first second joins).Settled :=
  (stable_merge hd hshort (hf.stable hd hshort) (hs.stable hd hshort) hj).settled

end

theorem joins_le_of_links {k : Nat} (h : ∀ p ∈ s.links.connections, p.2.joins ≤ k) (c c' : ColumnRef) (w : Connection)
    (hw : s.connection? c c' = some w) : w.joins ≤ k := by
  have ⟨_, _, heq, _⟩ := List.lookup_eq_some_iff.mp hw
  exact h ((c, c'), w) (heq ▸ List.mem_append_right _ List.mem_cons_self)

theorem merge_settled_sameFilm : Schema.ofDescription films = .ok filmsSchema ∧
    (∀ c c' w, filmsSchema.connection? c c' = some w → w.joins ≤ 2) ∧ Built filmsSchema sameFilm ∧
    Built filmsSchema (alone 2 "mj") ∧ (∀ j ∈ [throughFilm], Resolved filmsSchema sameFilm (alone 2 "mj") j) ∧
    (merge filmsSchema sameFilm (alone 2 "mj") [throughFilm]).Settled := by
  have hd : Schema.ofDescription films = .ok filmsSchema := rfl
  have hshort := joins_le_of_links (s := filmsSchema) (k := 2) (by decide +kernel)
  have hj : ∀ j ∈ [throughFilm], Resolved filmsSchema sameFilm (alone 2 "mj") j := by
    simpa using resolved_throughFilm.2 "mj" (by simp)
  exact ⟨hd, hshort, built_sameFilm, built_alone, hj, merge_settled hd hshort built_sameFilm built_alone hj⟩

-- Two tables that refer to the same one, one of which another table refers to.
def chain : SchemaDescription where
  name := "chain"
  tables := [
    { name := "a", cardinality := 1, columns := [{ name := "b_id", dataType := "integer" }] },
    { name := "b", cardinality := 1, columns := [{ name := "id", dataType := "integer" }] },
    { name := "c", cardinality := 1, columns := [{ name := "id", dataType := "integer" }] },
    { name := "d", cardinality := 1, columns := [{ name := "c_id", dataType := "integer" }] }]
  keys := [
    { name := "a_b", source := "a", sourceColumns := ["b_id"], target := "b", targetColumns := ["id"] },
    { name := "b_c", source := "b", sourceColumns := ["id"], target := "c", targetColumns := ["id"] },
    { name := "d_c", source := "d", sourceColumns := ["c_id"], target := "c", targetColumns := ["id"] }]

def chainSchema : Schema :=
  (Schema.ofDescription chain).toOption.get (by decide +kernel)

-- Two tables joined through a virtual one.
def joinedThrough : QueryGraph :=
  merge chainSchema (alone 1 "b1") (alone 3 "d1") [⟨0, [.join 1 true, .table 2, .join 2 false], 0⟩]

-- The same beside a third table.
def besideThird : QueryGraph :=
  merge chainSchema joinedThrough (alone 3 "d2") []

-- The third table is joined with a fourth one through two virtual ones, of which the second is known after the other
-- join to be one of the two tables.
def throughBoth : List EquivalenceJoin :=
  [⟨3, [.join 2 true, .table 2, .join 1 false, .table 1, .join 0 false], 0⟩, ⟨0, [.join 0 false], 0⟩]

theorem resolved_chain :
    Resolved chainSchema (alone 1 "b1") (alone 3 "d1") ⟨0, [.join 1 true, .table 2, .join 2 false], 0⟩ ∧
    ∀ j ∈ throughBoth, Resolved chainSchema besideThird (alone 0 "a1") j := by
  constructor
  case left => exact ⟨("b1", "id"), ("d1", "c_id"), by decide +kernel⟩
  case right =>
    have hthird : resolve chainSchema besideThird (alone 0 "a1") ("d2", "c_id") ("a1", "b_id") =
        .join ⟨3, [.join 2 true, .table 2, .join 1 false, .table 1, .join 0 false], 0⟩ := by
      decide +kernel
    have hfirst : resolve chainSchema besideThird (alone 0 "a1") ("b1", "id") ("a1", "b_id") =
        .join ⟨0, [.join 0 false], 0⟩ := by
      decide +kernel
    simpa [throughBoth] using And.intro ⟨_, _, hthird⟩ ⟨_, _, hfirst⟩

theorem built_besideThird : Built chainSchema besideThird :=
  .merge (.merge built_alone built_alone (by simpa using resolved_chain.1)) built_alone (by simp)

-- One node refers to two virtual nodes by one key.
theorem not_settled_chain : Schema.ofDescription chain = .ok chainSchema ∧ Built chainSchema besideThird ∧
    Built chainSchema (alone 0 "a1") ∧ (∀ j ∈ throughBoth, Resolved chainSchema besideThird (alone 0 "a1") j) ∧
    ¬(merge chainSchema besideThird (alone 0 "a1") throughBoth).Settled := by
  refine ⟨rfl, built_besideThird, built_alone, resolved_chain.2, fun h => ?_⟩
  have hx : (merge chainSchema besideThird (alone 0 "a1") throughBoth).edge? 0 = some ⟨0, 1, 2⟩ := by decide +kernel
  have hy : (merge chainSchema besideThird (alone 0 "a1") throughBoth).edge? 3 = some ⟨0, 1, 5⟩ := by decide +kernel
  exact h _ _ ⟨0, hx⟩ ⟨3, hy⟩ (.targets rfl rfl (by decide +kernel) (by decide +kernel) (by decide))

end Subplans.QueryGraph
