import Subplans.Proofs.Graph.Forces
import Subplans.Proofs.Merge.Dedupe

/-!
What an added edge makes redundant, and what is done about it.

`Redundant` lists the ways in which another edge of the same key makes a virtual node redundant. The node is taken
out in favour of another, and this is done again as long as the added edge makes a node redundant: what each round
keeps holds in the end (`mergeVirtual_run`), and so does what each step of a connection keeps (`addConnection_run`).
-/

namespace Subplans.QueryGraph

variable {g g' : QueryGraph} {n id first added second : Nat} {e x : Edge} {r : Redundancy}

-- The edge has the key of the one from `first` to `second`.
inductive Redundant (g : QueryGraph) (first second : Nat) (e : Edge) : Redundancy → Prop
  | oldTarget : e.source = first → g.isVirtual e.target = true →
    Redundant g first second e ⟨second, e.target, first, second⟩
  | newTarget : e.source = first → g.isVirtual second = true →
    Redundant g first second e ⟨e.target, second, first, e.target⟩
  | oldSource : e.target = second → g.isVirtual e.source = true →
    Redundant g first second e ⟨first, e.source, first, second⟩
  | newSource : e.target = second → g.isVirtual first = true →
    Redundant g first second e ⟨e.source, first, e.source, second⟩

theorem redundant_of_redundancy? (h : g.redundancy? first second e = some r) : g.Redundant first second e r := by
  unfold redundancy? at h
  split at h
  case isTrue hc =>
    cases h
    exact .oldTarget (by simp_all) (by simp_all)
  case isFalse =>
  split at h
  case isTrue hc =>
    cases h
    exact .newTarget (by simp_all) (by simp_all)
  case isFalse =>
  split at h
  case isTrue hc =>
    cases h
    exact .oldSource (by simp_all) (by simp_all)
  case isFalse =>
  split at h
  case isTrue hc =>
    cases h
    exact .newSource (by simp_all) (by simp_all)
  case isFalse => cases h

-- Nothing is redundant exactly if two edges that share an end have no virtual node at the others.
theorem redundancy?_eq_none : g.redundancy? first second e = none ↔
    (e.source = first → g.isVirtual e.target = false ∧ g.isVirtual second = false) ∧
    (e.target = second → g.isVirtual e.source = false ∧ g.isVirtual first = false) := by
  unfold redundancy?
  grind

namespace Redundant

theorem virtual (h : g.Redundant first second e r) : g.isVirtual r.drop = true := by
  cases h <;> assumption

-- The places that matter from then on are ends of the two edges.
theorem all {P : Nat → Prop} (h : g.Redundant first second e r) (hfirst : P first) (hsecond : P second)
    (hsource : P e.source) (htarget : P e.target) : P r.keep ∧ P r.first ∧ P r.second := by
  cases h <;> exact ⟨by assumption, by assumption, by assumption⟩

theorem contains_keep (hg : g.WellFormed) (he : g.HasEdge e) (hx : g.HasEdge x)
    (h : g.Redundant x.source x.target e r) : g.contains r.keep = true :=
  (h.all (P := fun n => g.contains n = true) (hg.contains_source hx) (hg.contains_target hx) (hg.contains_source he)
    (hg.contains_target he)).1

-- As long as no edge leads from a virtual node to itself, the ends of the added edge go where they are expected.
theorem rename_ends (hloop : ∀ y, g.HasEdge y → y.source = y.target → g.isVirtual y.source = false)
    (he : g.HasEdge e) (hx : g.HasEdge x) (h : g.Redundant x.source x.target e r) :
    rename r.drop r.keep x.source = r.first ∧ rename r.drop r.keep x.target = r.second := by
  have apart : ∀ {y}, g.HasEdge y → g.isVirtual y.source = true ∨ g.isVirtual y.target = true →
      y.source ≠ y.target := by
    intro y hy hv heq
    have hreal := hloop y hy heq
    simp [← heq, hreal] at hv
  cases h
  case oldTarget hs hv => exact ⟨rename_of_ne (hs ▸ apart he (.inr hv)), rename_new⟩
  case newTarget hs hv => exact ⟨rename_of_ne (apart hx (.inr hv)), rename_self⟩
  case oldSource ht hv => exact ⟨rename_new, rename_of_ne (ht ▸ (apart he (.inl hv)).symm)⟩
  case newSource ht hv => exact ⟨rename_self, rename_of_ne (apart hx (.inl hv)).symm⟩

-- A node is redundant in favour of itself only if the edges are equal.
theorem eq_of_drop_eq (h : g.Redundant x.source x.target e r) (hk : e.key = x.key) (heq : r.drop = r.keep) : e = x := by
  cases e
  cases x
  cases h <;> simp_all

end Redundant

theorem redundant_of_findRedundant (h : g.findRedundant first added second = some r) :
    ∃ id e x, id ≠ added ∧ g.edge? id = some e ∧ g.edge? added = some x ∧ e.key = x.key ∧
      g.Redundant first second e r := by
  have ⟨id, _, h⟩ := List.exists_of_findSome?_eq_some h
  split at h
  case isFalse => cases h
  case isTrue hid =>
    split at h
    case h_2 => cases h
    case h_1 e x he hx =>
      split at h
      case isFalse => cases h
      case isTrue hk =>
        exact ⟨id, e, x, by simp_all, he, hx, beq_iff_eq.mp hk, redundant_of_redundancy? h⟩

theorem redundancy?_of_findRedundant (hg : g.Wired) (h : g.findRedundant first added second = none)
    (hne : id ≠ added) (he : g.edge? id = some e) (hx : g.edge? added = some x) (hk : e.key = x.key) :
    g.redundancy? first second e = none := by
  have hnone := List.findSome?_eq_none_iff.mp h id (mem_edgeIds.mpr (by simp [he]))
  simp only [he, hx, hk, beq_self_eq_true, if_true] at hnone
  split at hnone
  case isTrue => exact hnone
  case isFalse hid =>
    -- An edge that is not looked at shares no end with the added one.
    have hout := hg.mem_outgoing first id
    have hin := hg.mem_incoming second id
    rw [redundancy?_eq_none]
    simp_all

theorem realNodes_removeNode (hv : g.isVirtual n = true) : (g.removeNode n).realNodes = g.realNodes := by
  have hnodes : (g.removeNode n).nodes = g.nodes.filter (· != n) := by
    rw [removeNode_of_contains (contains_of_isVirtual hv)]
  rw [realNodes, realNodes, hnodes, List.filter_filter]
  refine List.filter_congr fun m _ => ?_
  by_cases hm : m = n
  case pos => simp [hm, hv]
  case neg => simp [hm, isVirtual, node?_removeNode]

theorem collapse_same (h : r.drop = r.keep) : g.collapse r = g :=
  if_pos (beq_iff_eq.mpr h.symm)

theorem collapse_of_ne (h : r.drop ≠ r.keep) : g.collapse r = (g.redirect r.drop r.keep).removeNode r.drop :=
  if_neg (by simpa using h.symm)

theorem length_collapse : (g.collapse r).slots.length = g.slots.length := by
  by_cases hne : r.drop = r.keep
  case pos => rw [collapse_same hne]
  case neg => rw [collapse_of_ne hne, length_removeNode, sameNodes_redirect.length]

theorem node?_collapse (h : r.drop ≠ r.keep) :
    (g.collapse r).node? n = if n = r.drop then none else g.node? n := by
  rw [collapse_of_ne h, node?_removeNode, sameNodes_redirect.node?]

theorem nodes_collapse (h : r.drop ≠ r.keep) (hv : g.isVirtual r.drop = true) :
    (g.collapse r).nodes = g.nodes.filter (· != r.drop) := by
  have hsame : SameNodes g (g.redirect r.drop r.keep) := sameNodes_redirect
  rw [collapse_of_ne h, removeNode_of_contains (hsame.contains.trans (contains_of_isVirtual hv)), hsame.nodes]

theorem nodes_collapse_subset (hv : g.isVirtual r.drop = true) : (g.collapse r).nodes ⊆ g.nodes := by
  by_cases hne : r.drop = r.keep
  case pos =>
    rw [collapse_same hne]
    exact List.Subset.refl _
  case neg =>
    rw [nodes_collapse hne hv]
    exact List.filter_subset_self _

-- A node stays unless it is the one that is dropped.
theorem mem_nodes_collapse (hv : g.isVirtual r.drop = true) (hn : n ∈ g.nodes) (hdrop : n ≠ r.drop) :
    n ∈ (g.collapse r).nodes := by
  by_cases hne : r.drop = r.keep
  case pos => rwa [collapse_same hne]
  case neg =>
    rw [nodes_collapse hne hv]
    exact List.mem_filter.mpr ⟨hn, by simpa using hdrop⟩

theorem aliasName_collapse : (g.collapse r).aliasName n = g.aliasName n := by
  by_cases hne : r.drop = r.keep
  case pos => rw [collapse_same hne]
  case neg => rw [collapse_of_ne hne, aliasName_removeNode, sameNodes_redirect.aliasName]

theorem edge?_collapse (hg : g.Wired) (hkeep : r.keep < g.slots.length) :
    (g.collapse r).edge? id = (g.edge? id).map (Edge.map (rename r.drop r.keep)) := by
  by_cases hne : r.drop = r.keep
  case pos => simp [collapse_same hne, hne]
  case neg =>
    have hedge := hg.edge?_redirect (e := id) hne hkeep
    rw [collapse_of_ne hne, edge?_removeNode, if_neg, hedge]
    -- No end of an edge is at the dropped node any more.
    rw [(hg.redirect hne hkeep).mem_incident, hedge]
    rintro ⟨y, hy, hends⟩
    have ⟨z, _, hz⟩ := Option.map_eq_some_iff.mp hy
    cases hz
    exact hends.elim (rename_ne hne) (rename_ne hne)

protected theorem Wired.collapse (hg : g.Wired) (hkeep : r.keep < g.slots.length) : (g.collapse r).Wired := by
  by_cases hne : r.drop = r.keep
  case pos => exact collapse_same hne ▸ hg
  case neg => exact collapse_of_ne hne ▸ (hg.redirect hne hkeep).removeNode

protected theorem WellFormed.collapse (hg : g.WellFormed) (hkeep : g.contains r.keep = true) :
    (g.collapse r).WellFormed := by
  by_cases hne : r.drop = r.keep
  case pos => exact collapse_same hne ▸ hg
  case neg => exact collapse_of_ne hne ▸ (hg.redirect hne hkeep).removeNode

protected theorem Indexed.collapse (hg : g.Indexed) : (g.collapse r).Indexed := by
  by_cases hne : r.drop = r.keep
  case pos => exact collapse_same hne ▸ hg
  case neg => exact collapse_of_ne hne ▸ (hg.of_sameNodes sameNodes_redirect).removeNode

theorem realNodes_collapse (hv : g.isVirtual r.drop = true) : (g.collapse r).realNodes = g.realNodes := by
  by_cases hne : r.drop = r.keep
  case pos => rw [collapse_same hne]
  case neg =>
    have hsame : SameNodes g (g.redirect r.drop r.keep) := sameNodes_redirect
    rw [collapse_of_ne hne, realNodes_removeNode (hsame.isVirtual.trans hv), hsame.realNodes]

-- A node is dropped only if it is virtual.
theorem keeps_collapse (hv : g.isVirtual r.drop = true) : Keeps g (g.collapse r) := by
  by_cases hne : r.drop = r.keep
  case pos =>
    rw [collapse_same hne]
    exact .refl
  case neg =>
    constructor
    case realNodes => exact realNodes_collapse hv
    case node? =>
      intro n hn
      have hdrop : n ≠ r.drop := by
        rintro rfl
        have hreal := (mem_realNodes.mp hn).2
        simp [hv] at hreal
      rw [node?_collapse hne, if_neg hdrop]
    case aliasName => exact fun n _ => aliasName_collapse
    case named =>
      intro hg n hn
      rw [contains, node?_collapse hne] at hn
      rw [isVirtual, node?_collapse hne, aliasName_collapse]
      split at hn
      case isTrue => cases hn
      case isFalse hdrop =>
        rw [if_neg hdrop]
        exact hg n hn

theorem length_edgeIds_le (h : ∀ e x, g'.edge? e = some x → (g.edge? e).isSome) :
    g'.edgeIds.length ≤ g.edgeIds.length := by
  refine (List.subperm_of_subset nodup_edgeIds fun e he => ?_).length_le
  have ⟨x, hx⟩ := Option.isSome_iff_exists.mp (mem_edgeIds.mp he)
  exact mem_edgeIds.mpr (h e x hx)

theorem length_edgeIds_lt (h : ∀ e x, g'.edge? e = some x → (g.edge? e).isSome) (hid : (g.edge? id).isSome)
    (hgone : g'.edge? id = none) : g'.edgeIds.length < g.edgeIds.length := by
  have hsub : g'.edgeIds ⊆ g.edgeIds.erase id := by
    intro e he
    have ⟨x, hx⟩ := Option.isSome_iff_exists.mp (mem_edgeIds.mp he)
    rw [nodup_edgeIds.mem_erase_iff]
    exact ⟨fun heq => by simp [heq, hgone] at hx, mem_edgeIds.mpr (h e x hx)⟩
  have hle := (List.subperm_of_subset nodup_edgeIds hsub).length_le
  have hmem : id ∈ g.edgeIds := mem_edgeIds.mpr hid
  have hpos := List.length_pos_of_mem hmem
  rw [List.length_erase_of_mem hmem] at hle
  omega

-- No edges come up in a round.
theorem edge?_of_round (hg : g.Wired) (hkeep : r.keep < g.slots.length)
    (h : ((g.collapse r).dedupeEdges added).1.edge? id = some x) : (g.edge? id).isSome := by
  have hdedup : Deduped (g.collapse r) added _ _ := deduped_dedupeEdges
  have h := hdedup.edge? id x h
  rw [edge?_collapse hg hkeep] at h
  have ⟨y, hy, _⟩ := Option.map_eq_some_iff.mp h
  simp [hy]

-- Each round leaves fewer nodes or edges: where no node is taken out, one of two equal edges is.
theorem size_round (hg : g.WellFormed) (hx : g.edge? added = some x)
    (hr : g.findRedundant x.source added x.target = some r) :
    ((g.collapse r).dedupeEdges added).1.size < g.size := by
  have ⟨id, e, y, hne, he, hy, hk, hredundant⟩ := redundant_of_findRedundant hr
  cases hx.symm.trans hy
  have hdedup : Deduped (g.collapse r) added _ _ := deduped_dedupeEdges
  have hsimple : ((g.collapse r).dedupeEdges added).1.Simple := simple_dedupeEdges
  have hkeep := hredundant.contains_keep hg ⟨id, he⟩ ⟨added, hx⟩
  have hedges : ∀ e x, ((g.collapse r).dedupeEdges added).1.edge? e = some x → (g.edge? e).isSome :=
    fun _ _ => edge?_of_round hg.wired (lt_of_contains hkeep)
  rw [size, size, hdedup.sameNodes.nodes]
  by_cases hdrop : r.drop = r.keep
  case pos =>
    rw [hredundant.eq_of_drop_eq hk hdrop] at he
    have hcollapse : g.collapse r = g := collapse_same hdrop
    have hlt : ((g.collapse r).dedupeEdges added).1.edgeIds.length < g.edgeIds.length := by
      cases hid : ((g.collapse r).dedupeEdges added).1.edge? id
      case none => exact length_edgeIds_lt hedges (by simp [he]) hid
      case some z =>
        have hthere : (g.edge? added).isSome := by simp [hx]
        apply length_edgeIds_lt hedges hthere
        -- The edge stays, so the added one, which is equal to it, cannot.
        have hz := hdedup.edge? id z hid
        rw [hcollapse, he] at hz
        cases hz
        rw [Option.eq_none_iff_forall_ne_some]
        intro z hadded
        have hz := hdedup.edge? added z hadded
        rw [hcollapse, hx] at hz
        cases hz
        exact hne (hsimple x id added hid hadded)
    rw [hcollapse] at hlt ⊢
    omega
  case neg =>
    have hmem : r.drop ∈ g.nodes := (hg.mem_nodes _).mpr (contains_of_isVirtual hredundant.virtual)
    have hlt : (g.collapse r).nodes.length < g.nodes.length := by
      rw [nodes_collapse hdrop hredundant.virtual]
      exact List.length_filter_lt_length_iff_exists.mpr ⟨r.drop, hmem, by simp⟩
    have hle := length_edgeIds_le hedges
    omega

theorem mergeVirtual_run {P : QueryGraph → Nat → Nat → Nat → Prop}
    (hstep : ∀ {g first added second r}, P g first added second → g.findRedundant first added second = some r →
      P ((g.collapse r).dedupeEdges added).1 r.first ((g.collapse r).dedupeEdges added).2 r.second)
    (h : P g first added second) : ∃ added', P (g.mergeVirtual first added second).1
      (g.mergeVirtual first added second).2.1 added' (g.mergeVirtual first added second).2.2 := by
  fun_induction mergeVirtual g first added second
  case case1 => exact ⟨_, h⟩
  case case2 hr _ _ heq _ ih =>
    have hnext := hstep h hr
    rw [heq] at hnext
    exact ih hnext
  case case3 hr _ _ heq _ =>
    have hnext := hstep h hr
    rw [heq] at hnext
    exact ⟨_, hnext⟩

-- What each round keeps holds at the end, where nothing is redundant if each round leaves fewer nodes or edges.
theorem mergeVirtual_end {P : QueryGraph → Nat → Nat → Nat → Prop}
    (hstep : ∀ {g first added second r}, P g first added second → g.findRedundant first added second = some r →
      P ((g.collapse r).dedupeEdges added).1 r.first ((g.collapse r).dedupeEdges added).2 r.second ∧
      ((g.collapse r).dedupeEdges added).1.size < g.size)
    (h : P g first added second) : ∃ added', P (g.mergeVirtual first added second).1
      (g.mergeVirtual first added second).2.1 added' (g.mergeVirtual first added second).2.2 ∧
      (g.mergeVirtual first added second).1.findRedundant (g.mergeVirtual first added second).2.1 added'
        (g.mergeVirtual first added second).2.2 = none := by
  fun_induction mergeVirtual g first added second
  case case1 hnone => exact ⟨_, h, hnone⟩
  case case2 hr _ _ heq _ ih =>
    have ⟨hnext, _⟩ := hstep h hr
    rw [heq] at hnext
    exact ih hnext
  case case3 hr _ _ heq hlt =>
    have ⟨_, hsize⟩ := hstep h hr
    rw [heq] at hsize
    exact absurd hsize hlt

theorem mergeVirtual_of_none (h : g.findRedundant first added second = none) :
    g.mergeVirtual first added second = (g, first, second) := by
  rw [mergeVirtual, h]

-- Once a node has been redundant no edges are equal any more.
theorem simple_mergeVirtual (h : g.findRedundant first added second = some r) :
    (g.mergeVirtual first added second).1.Simple := by
  fun_induction mergeVirtual g first added second generalizing r
  case case1 hnone => simp [hnone] at h
  case case2 g _ added _ r' _ smaller added' heq _ ih =>
    have hsimple : (g.collapse r').dedupeEdges added |>.1.Simple := simple_dedupeEdges
    rw [heq] at hsimple
    cases hnext : smaller.findRedundant r'.first added' r'.second
    case none => rwa [mergeVirtual_of_none hnext]
    case some => exact ih hnext
  case case3 g _ added _ r' _ smaller added' heq _ =>
    have hsimple : (g.collapse r').dedupeEdges added |>.1.Simple := simple_dedupeEdges
    rwa [heq] at hsimple

-- The edges are in step with the lists of nodes, and the ends of the added one are among `k` places.
structure Spans (k : Nat) (g : QueryGraph) (first second : Nat) : Prop where
  wired     : g.Wired
  length    : g.slots.length = k
  first_lt  : first < k
  second_lt : second < k

theorem Spans.round {k : Nat} (h : Spans k g first second) (hr : g.findRedundant first added second = some r) :
    r.keep < g.slots.length ∧ Spans k ((g.collapse r).dedupeEdges added).1 r.first r.second := by
  have ⟨id, e, _, _, he, _, _, hr⟩ := redundant_of_findRedundant hr
  have hdedup : Deduped (g.collapse r) added _ _ := deduped_dedupeEdges
  have ⟨hkeep, hfirst, hsecond⟩ := hr.all (P := (· < g.slots.length)) (h.length ▸ h.first_lt)
    (h.length ▸ h.second_lt) (h.wired.source_lt id e he) (h.wired.target_lt id e he)
  refine ⟨hkeep, hdedup.wired (h.wired.collapse hkeep), ?_, h.length ▸ hfirst, h.length ▸ hsecond⟩
  rw [hdedup.sameNodes.length, length_collapse, h.length]

theorem Spans.mergeVirtual {k : Nat} (h : Spans k g first second) (added : Nat) :
    Spans k (g.mergeVirtual first added second).1 (g.mergeVirtual first added second).2.1
      (g.mergeVirtual first added second).2.2 :=
  have ⟨_, h⟩ := mergeVirtual_run (P := fun g first _ second => Spans k g first second)
    (fun h hr => (h.round hr).2) h
  h

theorem keeps_mergeVirtual : Keeps g (g.mergeVirtual first added second).1 := by
  have ⟨_, h⟩ : ∃ _ : Nat, Keeps g (g.mergeVirtual first added second).1 :=
    mergeVirtual_run (P := fun g' _ _ _ => Keeps g g') ?_ .refl
  case refine_1 =>
    intro g' _ _ _ r h hr
    have ⟨_, _, _, _, _, _, _, hr⟩ := redundant_of_findRedundant hr
    exact h.trans ((keeps_collapse hr.virtual).trans deduped_dedupeEdges.sameNodes.keeps)
  exact h

protected theorem Indexed.mergeVirtual (hg : g.Indexed) : (g.mergeVirtual first added second).1.Indexed := by
  have ⟨_, h⟩ : ∃ _ : Nat, (g.mergeVirtual first added second).1.Indexed :=
    mergeVirtual_run (P := fun g' _ _ _ => g'.Indexed) ?_ hg
  case refine_1 =>
    intro _ _ _ _ _ h _
    exact h.collapse.of_sameNodes deduped_dedupeEdges.sameNodes
  exact h

-- What is kept by the steps to new virtual nodes holds up to the last step, which leads to the target.
theorem addConnection_run {s : Schema} {target last : Nat} {pending : Option (Nat × Bool)} {w : Connection}
    {P : QueryGraph → Nat → Prop} {Q : QueryGraph → Prop} (hnone : ∀ {g last}, P g last → Q g)
    (hlast : ∀ {g last key natural}, P g last → Q (g.addStep key natural last target).1)
    (hstep : ∀ {g last} key natural t, P g last →
      P ((g.addFresh (.virtual s t)).2.addStep key natural last g.slots.length).1
        ((g.addFresh (.virtual s t)).2.addStep key natural last g.slots.length).2)
    (h : P g last) : Q (addConnection s target g last pending w) := by
  fun_induction addConnection s target g last pending w
  case case1 => exact hlast h
  case case2 => exact hnone h
  case case3 ih => exact ih h
  case case4 g last key natural t _ next fresh hfresh step arrived heq ih =>
    have hnext : g.slots.length = next := congrArg Prod.fst hfresh
    have hgraph : (g.addFresh (.virtual s t)).2 = fresh := congrArg Prod.snd hfresh
    have hadvance := hstep key natural t h
    rw [hgraph, hnext, heq] at hadvance
    exact ih hadvance
  case case5 ih => exact ih h

end Subplans.QueryGraph
