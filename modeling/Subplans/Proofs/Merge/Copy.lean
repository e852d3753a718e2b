import Mathlib.Data.List.Induction
import Subplans.Proofs.Graph.Forces
import Subplans.Query.Merge

/-!
A graph with a copy of another one.

`Copied` says where the nodes of the copied graph have gone: to new places, with their edges between them and
nothing else, so that the copy forces what the copied graph does and is not related to the rest
(`Copied.forces_kept`, `Copied.forces_placed`, `Copied.forces_cases`). Nodes keep their aliases where these do
not collide (`Copied.aliases`).
-/

namespace Subplans

open Closure Relation

namespace QueryGraph

variable {s : Schema} {g g' t source first second : QueryGraph} {n m k : Nat} {x : Edge} {o : Occurrence} {c d : ColumnRef}
  {π : Nat → Nat}

-- One node more, at the end.
structure Added (g g' : QueryGraph) (o : Occurrence) : Prop where
  wellFormed : g.WellFormed → g'.WellFormed
  node?      : ∀ n, g'.node? n = if n = g.slots.length then some o else g.node? n
  aliasName  : ∀ n, n ≠ g.slots.length → g'.aliasName n = g.aliasName n
  edges      : g'.edges = g.edges
  nodes      : g'.nodes = g.nodes ++ [g.slots.length]
  length     : g'.slots.length = g.slots.length + 1

theorem added_addFresh : Added g (g.addFresh o).2 o where
  wellFormed hg := hg.addFresh
  node? _ := node?_addFresh
  aliasName n hn := by rw [aliasName_addFresh, if_neg hn]
  edges := rfl
  nodes := rfl
  length := by simp [addFresh, add]

theorem added_add {a : String} (ha : g.byAlias? a = none) : Added g (g.add o a).2 o where
  wellFormed hg := hg.add ha
  node? _ := node?_add
  aliasName n hn := by rw [aliasName_add, if_neg hn]
  edges := rfl
  nodes := rfl
  length := by simp [add]

-- Copies one node: the graph so far, and the places of the nodes that are copied.
def placeStep (source : QueryGraph) (t : QueryGraph × List (Nat × Nat)) (n : Nat) : QueryGraph × List (Nat × Nat) :=
  let (m, g) := if (t.1.byAlias? (source.aliasName n)).isSome then t.1.addFresh (source.node n)
    else t.1.add (source.node n) (source.aliasName n)
  (g, t.2 ++ [(n, m)])

theorem placeStep_snd {t : QueryGraph × List (Nat × Nat)} :
    (placeStep source t n).2 = t.2 ++ [(n, t.1.slots.length)] := by
  unfold placeStep
  cases (t.1.byAlias? (source.aliasName n)).isSome <;> rfl

theorem added_placeStep {t : QueryGraph × List (Nat × Nat)} :
    Added t.1 (placeStep source t n).1 (source.node n) := by
  unfold placeStep
  cases h : t.1.byAlias? (source.aliasName n)
  case none => exact added_add h
  case some => exact added_addFresh

-- The first nodes are copied.
structure Placed (t source : QueryGraph) (ns : List Nat) (r : QueryGraph × List (Nat × Nat)) : Prop where
  wellFormed : r.1.WellFormed
  length     : r.1.slots.length = t.slots.length + ns.length
  places     : r.2 = ns.zipIdx t.slots.length
  node?      : ∀ n, n < t.slots.length → r.1.node? n = t.node? n
  aliasName  : ∀ n, n < t.slots.length → r.1.aliasName n = t.aliasName n
  placed     : ∀ n m, (n, m) ∈ r.2 → r.1.node? m = some (source.node n)
  edges      : r.1.edges = t.edges
  nodes      : r.1.nodes = t.nodes ++ r.2.map Prod.snd

theorem placed_foldl (ht : t.WellFormed) (ns : List Nat) :
    Placed t source ns (ns.foldl (placeStep source) (t, [])) := by
  induction ns using List.reverseRecOn
  case nil =>
    exact ⟨ht, rfl, rfl, fun _ _ => rfl, fun _ _ => rfl, nofun, rfl, by simp⟩
  case append_singleton ns n ih =>
    rw [List.foldl_concat]
    generalize ns.foldl (placeStep source) (t, []) = r at ih
    have hadded : Added r.1 (placeStep source r n).1 (source.node n) := added_placeStep
    have hsnd : (placeStep source r n).2 = r.2 ++ [(n, r.1.slots.length)] := placeStep_snd
    have hle : t.slots.length ≤ r.1.slots.length := by
      have := ih.length
      omega
    have hlt : ∀ m k, (m, k) ∈ r.2 → k < r.1.slots.length := by
      intro m k hm
      exact lt_of_contains (by simp [contains, ih.placed m k hm])
    constructor
    case wellFormed => exact hadded.wellFormed ih.wellFormed
    case length =>
      rw [hadded.length, ih.length, List.length_append]
      rfl
    case places => rw [hsnd, ih.places, ih.length, List.zipIdx_append, List.zipIdx_singleton]
    case node? =>
      intro m hm
      rw [hadded.node?, if_neg (by omega), ih.node? m hm]
    case aliasName =>
      intro m hm
      rw [hadded.aliasName m (by omega), ih.aliasName m hm]
    case placed =>
      intro m k hm
      rw [hadded.node?]
      rw [hsnd, List.mem_append] at hm
      cases hm
      case inl hm => rw [if_neg (Nat.ne_of_lt (hlt m k hm)), ih.placed m k hm]
      case inr hm =>
        cases List.mem_singleton.mp hm
        rw [if_pos rfl]
    case edges => exact hadded.edges.trans ih.edges
    case nodes => simp [hadded.nodes, hsnd, ih.nodes]

-- Copies one edge between the places of its ends.
def edgeStep (source : QueryGraph) (π : Nat → Nat) (t : QueryGraph) (id : Nat) : QueryGraph :=
  match source.edge? id with
  | some e => (t.addEdge (π e.source) e.key (π e.target)).2
  | none => t

-- The same nodes, and the edges of `t` followed by the copied ones.
structure Edged (t source : QueryGraph) (π : Nat → Nat) (ids : List Nat) (g : QueryGraph) : Prop where
  wellFormed : g.WellFormed
  sameNodes  : SameNodes t g
  edges      : g.edges = t.edges ++ ids.map fun id => (source.edge? id).map (Edge.map π)

theorem edged_foldl (ht : t.WellFormed) (hπ : ∀ x, source.HasEdge x → t.contains (π x.source) = true ∧
    t.contains (π x.target) = true) {ids : List Nat} (hids : ∀ id ∈ ids, (source.edge? id).isSome) :
    Edged t source π ids (ids.foldl (edgeStep source π) t) := by
  induction ids using List.reverseRecOn
  case nil => exact ⟨ht, .refl, by simp⟩
  case append_singleton ids id ih =>
    have ih := ih fun id h => hids id (List.mem_append_left _ h)
    have ⟨x, hx⟩ := Option.isSome_iff_exists.mp (hids id (by simp))
    rw [List.foldl_concat]
    generalize ids.foldl (edgeStep source π) t = g at ih
    have hstep : edgeStep source π g id = (g.addEdge (π x.source) x.key (π x.target)).2 := by simp [edgeStep, hx]
    have ⟨hs, ht⟩ := hπ x ⟨id, hx⟩
    rw [hstep]
    constructor
    case wellFormed => exact ih.wellFormed.addEdge (ih.sameNodes.contains.trans hs) (ih.sameNodes.contains.trans ht)
    case sameNodes => exact ih.sameNodes.trans sameNodes_addEdge
    case edges => simp [addEdge, ih.edges, hx, Edge.map]

theorem Edged.hasEdge {ids : List Nat} (h : Edged t source π ids g) :
    g.HasEdge x ↔ t.HasEdge x ∨ ∃ id ∈ ids, ∃ y, source.edge? id = some y ∧ y.map π = x := by
  simp [hasEdge_iff_mem, h.edges]

-- No nodes of the two graphs that are not virtual have one alias.
def Apart (g g' : QueryGraph) : Prop :=
  ∀ n ∈ g.realNodes, ∀ m ∈ g'.realNodes, g.aliasName n ≠ g'.aliasName m

theorem node?_eq_some_node (h : g.contains n = true) : g.node? n = some (g.node n) := by
  rw [contains, Option.isSome_iff_exists] at h
  obtain ⟨o, ho⟩ := h
  simp [node, ho]

-- Nothing stands in the way of the alias of a node that is to be copied: it is not taken, nor can it be handed out
-- in exchange for one that is.
structure Clear (t source : QueryGraph) (n : Nat) : Prop where
  free  : t.byAlias? (source.aliasName n) = none
  fresh : ∀ k, source.aliasName n = numbered k → ∀ m ∈ source.nodes, t.byAlias? (source.aliasName m) = none

-- Nodes that are not virtual can be copied under their aliases where those that are handed out go to virtual nodes.
theorem clear_of_named (ht : t.WellFormed) (hs : source.WellFormed) (hnt : t.Named) (hns : source.Named)
    (hapart : Apart source t) (hn : n ∈ source.realNodes) : Clear t source n where
  free := by
    have ⟨hc, hv⟩ := hs.mem_realNodes.mp hn
    rw [Option.eq_none_iff_forall_ne_some]
    intro m hm
    have ⟨hmc, hma⟩ := (ht.byAlias _ m).mp hm
    cases hvm : t.isVirtual m
    case false => exact hapart n hn m (ht.mem_realNodes.mpr ⟨hmc, hvm⟩) hma.symm
    case true =>
      have ⟨k, hk⟩ := (hnt m hmc).mp hvm
      exact hns.not_numbered hc hv (hma.symm.trans hk)
  fresh k hk := by
    have ⟨hc, hv⟩ := hs.mem_realNodes.mp hn
    exact absurd hk (hns.not_numbered hc hv)

-- The aliases after some nodes are copied.
structure Aliased (t source : QueryGraph) (ns : List Nat) (r : QueryGraph × List (Nat × Nat)) : Prop where
  taken : ∀ a, (r.1.byAlias? a).isSome → (t.byAlias? a).isSome ∨ (∃ n ∈ ns, source.aliasName n = a) ∨
    ∃ k, a = numbered k ∧ ∃ n ∈ ns, (t.byAlias? (source.aliasName n)).isSome
  kept  : ∀ n m, (n, m) ∈ r.2 → Clear t source n → r.1.aliasName m = source.aliasName n

namespace Aliased

variable {ns : List Nat} {r : QueryGraph × List (Nat × Nat)}

-- No other node that is copied has the alias of the next one.
theorem taken_next (h : Aliased t source ns r) (hs : source.WellFormed) (hsub : ∀ n ∈ ns, source.contains n = true)
    (hc : source.contains n = true) (hn : n ∉ ns) (ha : (r.1.byAlias? (source.aliasName n)).isSome) :
    (t.byAlias? (source.aliasName n)).isSome ∨
    ∃ k, source.aliasName n = numbered k ∧ ∃ m ∈ ns, (t.byAlias? (source.aliasName m)).isSome := by
  rcases h.taken _ ha with ht | ⟨m, hm, heq⟩ | hfresh
  · exact .inl ht
  · exact absurd (hs.aliasName_inj (hsub m hm) hc heq ▸ hm) hn
  · exact .inr hfresh

theorem free (h : Aliased t source ns r) (hs : source.WellFormed) (hsub : ∀ n ∈ ns, source.contains n = true)
    (hc : source.contains n = true) (hn : n ∉ ns) (hclear : Clear t source n) :
    r.1.byAlias? (source.aliasName n) = none := by
  rw [← Option.not_isSome_iff_eq_none]
  intro ha
  rcases h.taken_next hs hsub hc hn ha with ht | ⟨k, hk, m, hm, ht⟩
  · simp [hclear.free] at ht
  · simp [hclear.fresh k hk m ((hs.mem_nodes m).mpr (hsub m hm))] at ht

end Aliased

theorem byAlias?_placeStep {t : QueryGraph × List (Nat × Nat)} {a : String}
    (ha : ((placeStep source t n).1.byAlias? a).isSome) : (t.1.byAlias? a).isSome ∨ a = source.aliasName n ∨
      (∃ k, a = numbered k) ∧ (t.1.byAlias? (source.aliasName n)).isSome := by
  unfold placeStep at ha
  cases hb : t.1.byAlias? (source.aliasName n)
  case none =>
    simp only [hb, Option.isSome_none, Bool.false_eq_true, if_false, byAlias?_add] at ha
    split at ha
    case isTrue heq => exact .inr (.inl heq)
    case isFalse => exact .inl ha
  case some =>
    simp only [hb, Option.isSome_some, if_true, byAlias?_addFresh] at ha
    split at ha
    case isTrue heq => exact .inr (.inr ⟨⟨_, heq⟩, rfl⟩)
    case isFalse => exact .inl ha

theorem aliased_foldl (ht : t.WellFormed) (hs : source.WellFormed) {ns : List Nat} (hnodup : ns.Nodup)
    (hsub : ∀ n ∈ ns, source.contains n = true) :
    Aliased t source ns (ns.foldl (placeStep source) (t, [])) := by
  induction ns using List.reverseRecOn
  case nil => exact { taken := fun _ => .inl, kept := nofun }
  case append_singleton ns n ih =>
    have ⟨hnodup, _, hnew⟩ := List.nodup_append.mp hnodup
    have hn : n ∉ ns := fun h => hnew n h n (List.mem_singleton_self n) rfl
    have hsub' : ∀ n ∈ ns, source.contains n = true := fun n h => hsub n (List.mem_append_left _ h)
    have hc : source.contains n = true := hsub n (by simp)
    have haliased := ih hnodup hsub'
    have hplaced : Placed t source ns _ := placed_foldl ht ns
    rw [List.foldl_concat]
    generalize ns.foldl (placeStep source) (t, []) = r at haliased hplaced
    have hadded : Added r.1 (placeStep source r n).1 (source.node n) := added_placeStep
    constructor
    case taken =>
      intro a ha
      simp only [List.mem_append, List.mem_singleton, or_and_right, exists_or, exists_eq_left]
      rcases byAlias?_placeStep ha with ha | rfl | ⟨hk, hb⟩
      · rcases haliased.taken a ha with ht | hsource | ⟨k, hk, hm⟩
        · exact .inl ht
        · exact .inr (.inl (.inl hsource))
        · exact .inr (.inr ⟨k, hk, .inl hm⟩)
      · exact .inr (.inl (.inr rfl))
      · have ⟨k, hk⟩ := hk
        rcases haliased.taken_next hs hsub' hc hn hb with ht | ⟨-, -, hm⟩
        · exact .inr (.inr ⟨k, hk, .inr ht⟩)
        · exact .inr (.inr ⟨k, hk, .inl hm⟩)
    case kept =>
      intro n' m hm hclear
      rw [placeStep_snd, List.mem_append] at hm
      cases hm
      case inl hm =>
        have hlt := lt_of_contains (show r.1.contains m = true by simp [contains, hplaced.placed n' m hm])
        rw [hadded.aliasName m (Nat.ne_of_lt hlt), haliased.kept n' m hm hclear]
      case inr hm =>
        cases List.mem_singleton.mp hm
        simp [placeStep, haliased.free hs hsub' hc hn hclear, aliasName_add]

theorem named_foldl (ht : t.WellFormed) (hs : source.WellFormed) (hnt : t.Named) (hns : source.Named)
    (hapart : Apart source t) {ns : List Nat} (hnodup : ns.Nodup) (hsub : ∀ n ∈ ns, source.contains n = true) :
    (ns.foldl (placeStep source) (t, [])).1.Named := by
  induction ns using List.reverseRecOn
  case nil => exact hnt
  case append_singleton ns n ih =>
    have ⟨hnodup, _, hnew⟩ := List.nodup_append.mp hnodup
    have hn : n ∉ ns := fun h => hnew n h n (List.mem_singleton_self n) rfl
    have hsub' : ∀ n ∈ ns, source.contains n = true := fun n h => hsub n (List.mem_append_left _ h)
    have hc : source.contains n = true := hsub n (by simp)
    have hnamed := ih hnodup hsub'
    have haliased : Aliased t source ns _ := aliased_foldl ht hs hnodup hsub'
    have hplaced : Placed t source ns _ := placed_foldl ht ns
    rw [List.foldl_concat]
    generalize ns.foldl (placeStep source) (t, []) = r at hnamed haliased hplaced
    unfold placeStep
    cases hb : r.1.byAlias? (source.aliasName n)
    case none =>
      refine hnamed.add ?_
      rw [← isVirtual_eq]
      exact hns n hc
    case some =>
      -- Only the alias of a virtual node can be taken.
      have hv : source.isVirtual n = true := by
        by_contra hv
        have hreal := hs.mem_realNodes.mpr ⟨hc, (Bool.not_eq_true _).mp hv⟩
        simp [haliased.free hs hsub' hc hn (clear_of_named ht hs hnt hns hapart hreal)] at hb
      exact (keeps_addFresh hplaced.wellFormed.indexed (isVirtual_eq ▸ hv)).named hnamed

structure Copied (t source g : QueryGraph) (π : Nat → Nat) : Prop where
  wellFormed : g.WellFormed
  node?      : ∀ n, t.contains n = true → g.node? n = t.node? n
  aliasName  : ∀ n, t.contains n = true → g.aliasName n = t.aliasName n
  placed     : ∀ n, source.contains n = true → g.node? (π n) = source.node? n
  new        : ∀ n, source.contains n = true → t.contains (π n) = false
  inj        : ∀ n m, source.contains n = true → source.contains m = true → π n = π m → n = m
  nodes      : g.nodes = t.nodes ++ source.nodes.map π
  edges      : g.edges = t.edges ++ source.edgeIds.map fun id => (source.edge? id).map (Edge.map π)
  hasEdge    : ∀ x, g.HasEdge x ↔ t.HasEdge x ∨ ∃ y, source.HasEdge y ∧ y.map π = x
  kept       : ∀ n, source.contains n = true → Clear t source n → g.aliasName (π n) = source.aliasName n
  named      : t.Named → source.Named → Apart source t → g.Named

-- Where a node is according to a list of places.
def placeOf (places : List (Nat × Nat)) (n : Nat) : Nat :=
  (places.lookup n).getD 0

theorem copyInto_eq : t.copyInto source =
    (source.edgeIds.foldl (edgeStep source (placeOf (source.nodes.foldl (placeStep source) (t, [])).2))
      (source.nodes.foldl (placeStep source) (t, [])).1, (source.nodes.foldl (placeStep source) (t, [])).2) :=
  rfl

theorem mem_placeOf {ns : List Nat} (hn : n ∈ ns) : (n, placeOf (ns.zipIdx k) n) ∈ ns.zipIdx k := by
  cases h : (ns.zipIdx k).lookup n
  case none =>
    have ⟨i, hi⟩ := List.getElem?_of_mem hn
    have hmem : (n, k + i) ∈ ns.zipIdx k := by simp [List.mk_mem_zipIdx_iff_le_and_getElem?_sub, hi]
    have := List.lookup_eq_none_iff.mp h _ hmem
    simp at this
  case some m =>
    simp only [placeOf, h, Option.getD_some]
    have ⟨before, after, heq, _⟩ := List.lookup_eq_some_iff.mp h
    simp [heq]

theorem placeOf_eq {ns : List Nat} (hns : ns.Nodup) (h : (n, m) ∈ ns.zipIdx k) : placeOf (ns.zipIdx k) n = m := by
  have hn : n ∈ ns := List.fst_mem_of_mem_zipIdx h
  have hplace := mem_placeOf (k := k) hn
  rw [List.mk_mem_zipIdx_iff_le_and_getElem?_sub] at h hplace
  have hlt : placeOf (ns.zipIdx k) n - k < ns.length := (List.getElem?_eq_some_iff.mp hplace.2).1
  have := (List.getElem?_inj hlt hns).mp (hplace.2.trans h.2.symm)
  omega

theorem map_placeOf {ns : List Nat} (hns : ns.Nodup) :
    ns.map (placeOf (ns.zipIdx k)) = (ns.zipIdx k).map Prod.snd := by
  conv => lhs; rw [← List.zipIdx_map_fst k ns, List.map_map]
  exact List.map_congr_left fun p hp => by simpa using placeOf_eq hns hp

theorem copied_copyInto (ht : t.WellFormed) (hs : source.WellFormed) :
    Copied t source (t.copyInto source).1 (placeOf (t.copyInto source).2) := by
  have hplaced : Placed t source source.nodes _ := placed_foldl ht source.nodes
  have hsub : ∀ n ∈ source.nodes, source.contains n = true := fun n => (hs.mem_nodes n).mp
  have haliased : Aliased t source source.nodes _ := aliased_foldl ht hs hs.nodup_nodes hsub
  have hnamed := fun hnt hns hapart => named_foldl ht hs hnt hns hapart hs.nodup_nodes hsub
  rw [copyInto_eq]
  generalize source.nodes.foldl (placeStep source) (t, []) = r at hplaced haliased hnamed
  dsimp only
  have hmem : ∀ n, source.contains n = true → (n, placeOf r.2 n) ∈ r.2 := by
    intro n hn
    rw [hplaced.places]
    exact mem_placeOf ((hs.mem_nodes n).mpr hn)
  have hnode : ∀ n, source.contains n = true → r.1.node? (placeOf r.2 n) = source.node? n := by
    intro n hn
    rw [hplaced.placed n _ (hmem n hn), node?_eq_some_node hn]
  have hcontains : ∀ n, source.contains n = true → r.1.contains (placeOf r.2 n) = true := by
    intro n hn
    rw [contains, hnode n hn]
    exact hn
  have hends : ∀ x, source.HasEdge x → r.1.contains (placeOf r.2 x.source) = true ∧
      r.1.contains (placeOf r.2 x.target) = true :=
    fun x hx => ⟨hcontains _ (hs.contains_source hx), hcontains _ (hs.contains_target hx)⟩
  have hedged := edged_foldl hplaced.wellFormed hends fun id => mem_edgeIds.mp
  constructor
  case wellFormed => exact hedged.wellFormed
  case node? =>
    intro n hn
    rw [hedged.sameNodes.node?, hplaced.node? n (lt_of_contains hn)]
  case aliasName =>
    intro n hn
    rw [hedged.sameNodes.aliasName, hplaced.aliasName n (lt_of_contains hn)]
  case placed =>
    intro n hn
    rw [hedged.sameNodes.node?, hnode n hn]
  case new =>
    intro n hn
    have hplace := hmem n hn
    -- Places are counted from the first address that is free.
    rw [hplaced.places] at hplace ⊢
    rw [List.mk_mem_zipIdx_iff_le_and_getElem?_sub] at hplace
    by_contra hc
    have := lt_of_contains ((Bool.not_eq_false _).mp hc)
    omega
  case inj =>
    intro n m hn hm heq
    have hn := hmem n hn
    have hm := hmem m hm
    rw [← heq] at hm
    rw [hplaced.places, List.mk_mem_zipIdx_iff_le_and_getElem?_sub] at hn hm
    exact Option.some.inj (hn.2.symm.trans hm.2)
  case nodes => rw [hedged.sameNodes.nodes, hplaced.nodes, hplaced.places, map_placeOf hs.nodup_nodes]
  case edges => rw [hedged.edges, hplaced.edges]
  case hasEdge =>
    intro x
    have hsame : r.1.HasEdge x ↔ t.HasEdge x := by simp [hasEdge_iff_mem, hplaced.edges]
    rw [hedged.hasEdge, hsame]
    constructor
    · rintro (h | ⟨id, _, y, hy, heq⟩)
      case inl => exact .inl h
      case inr => exact .inr ⟨y, ⟨id, hy⟩, heq⟩
    · rintro (h | ⟨y, ⟨id, hy⟩, heq⟩)
      case inl => exact .inl h
      case inr => exact .inr ⟨id, mem_edgeIds.mpr (by simp [hy]), y, hy, heq⟩
  case kept =>
    intro n hc hclear
    rw [hedged.sameNodes.aliasName, haliased.kept n _ (hmem n hc) hclear]
  case named => exact fun hnt hns hapart => hedged.sameNodes.keeps.named (hnamed hnt hns hapart)

namespace Copied

variable (h : Copied t source g π) {p q : Slot}

include h

theorem isVirtual_placed (hn : source.contains n = true) : g.isVirtual (π n) = source.isVirtual n := by
  rw [isVirtual, isVirtual, h.placed n hn]

theorem isVirtual_kept (hn : t.contains n = true) : g.isVirtual n = t.isVirtual n := by
  rw [isVirtual, isVirtual, h.node? n hn]

theorem real_placed (hs : source.WellFormed) (hp : source.contains p.node = true) :
    g.Real (p.map π) ↔ source.Real p := by
  have hc : g.contains (π p.node) = source.contains p.node := by
    rw [QueryGraph.contains, QueryGraph.contains, h.placed _ hp]
  rw [Real, Real, Slot.map, h.wellFormed.mem_realNodes, hs.mem_realNodes, hc, h.isVirtual_placed hp]

theorem real_kept (ht : t.WellFormed) (hp : t.contains p.node = true) : g.Real p ↔ t.Real p := by
  have hc : g.contains p.node = t.contains p.node := by
    rw [QueryGraph.contains, QueryGraph.contains, h.node? _ hp]
  rw [Real, Real, h.wellFormed.mem_realNodes, ht.mem_realNodes, hc, h.isVirtual_kept hp]

theorem realNodes (ht : t.WellFormed) (hs : source.WellFormed) :
    g.realNodes = t.realNodes ++ source.realNodes.map π := by
  rw [QueryGraph.realNodes, h.nodes, List.filter_append, List.filter_map]
  congr 1
  case e_a => exact List.filter_congr fun n hn => by rw [h.isVirtual_kept ((ht.mem_nodes n).mp hn)]
  case e_a =>
    congr 1
    exact List.filter_congr fun n hn => by rw [Function.comp, h.isVirtual_placed ((hs.mem_nodes n).mp hn)]

theorem aliases (ht : t.WellFormed) (hs : source.WellFormed) (hnt : t.Named) (hns : source.Named)
    (hapart : Apart source t) : g.Named ∧ ∀ n ∈ source.realNodes, g.aliasName (π n) = source.aliasName n where
  left := h.named hnt hns hapart
  right n hn := h.kept n (hs.mem_realNodes.mp hn).1 (clear_of_named ht hs hnt hns hapart hn)

theorem relates_iff : g.Relates s p q ↔
    t.Relates s p q ∨ ∃ p' q', source.Relates s p' q' ∧ p'.map π = p ∧ q'.map π = q where
  mp := by
    rintro ⟨x, hx, hs, ht, hp⟩
    rcases (h.hasEdge x).mp hx with hx | ⟨y, hy, rfl⟩
    · exact .inl ⟨x, hx, hs, ht, hp⟩
    · exact .inr ⟨⟨y.source, p.column⟩, ⟨y.target, q.column⟩, ⟨y, hy, rfl, rfl, hp⟩,
        congrArg (Slot.mk · p.column) hs, congrArg (Slot.mk · q.column) ht⟩
  mpr := by
    rintro (⟨x, hx, hs⟩ | ⟨p', q', ⟨y, hy, hs, ht, hp⟩, rfl, rfl⟩)
    case inl => exact ⟨x, (h.hasEdge x).mpr (.inl hx), hs⟩
    case inr => exact ⟨y.map π, (h.hasEdge _).mpr (.inr ⟨y, hy, rfl⟩), congrArg π hs, congrArg π ht, hp⟩

theorem uses_cases (hp : g.Uses s p) : t.Uses s p ∨ ∃ p', source.Uses s p' ∧ p'.map π = p := by
  rcases hp with ⟨q, hpq | hpq⟩ <;> rcases h.relates_iff.mp hpq with hpq | ⟨p', q', hpq, hp, hq⟩
  · exact .inl ⟨q, .inl hpq⟩
  · exact .inr ⟨p', ⟨q', .inl hpq⟩, hp⟩
  · exact .inl ⟨q, .inr hpq⟩
  · exact .inr ⟨q', ⟨p', .inr hpq⟩, hq⟩

theorem slot_inj (hp : source.contains p.node = true) (hq : source.contains q.node = true)
    (heq : p.map π = q.map π) : p = q := by
  have hnode := h.inj p.node q.node hp hq (congrArg Slot.node heq)
  have hcolumn : p.column = q.column := (Slot.mk.inj heq).2
  cases p
  cases q
  simp_all

theorem tidy (ht : t.Tidy s) (hs : source.Tidy s) : g.Tidy s where
  wellFormed := h.wellFormed
  proper x hx := by
    rcases (h.hasEdge x).mp hx with hx | ⟨y, hy, rfl⟩
    · exact ht.proper x hx
    · exact hs.proper y hy
  single n c d hv hc hd := by
    -- Both columns are used in one of the two graphs, since the new nodes are none of the old ones.
    rcases h.uses_cases hc with hc | ⟨p, hp, hpc⟩ <;> rcases h.uses_cases hd with hd | ⟨q, hq, hqd⟩
    · have hn := ht.wellFormed.contains_of_uses hc
      exact ht.single n c d (h.isVirtual_kept hn ▸ hv) hc hd
    · have hn := ht.wellFormed.contains_of_uses hc
      have hnew := h.new q.node (hs.wellFormed.contains_of_uses hq)
      rw [show π q.node = n from congrArg Slot.node hqd] at hnew
      simp [hnew] at hn
    · have hn := ht.wellFormed.contains_of_uses hd
      have hnew := h.new p.node (hs.wellFormed.contains_of_uses hp)
      rw [show π p.node = n from congrArg Slot.node hpc] at hnew
      simp [hnew] at hn
    · have hpn := hs.wellFormed.contains_of_uses hp
      have hqn := hs.wellFormed.contains_of_uses hq
      obtain ⟨rfl, rfl⟩ : π p.node = n ∧ p.column = c := Slot.mk.inj hpc
      have ⟨hnode, hcolumn⟩ : π q.node = π p.node ∧ q.column = d := Slot.mk.inj hqd
      have hnode := h.inj q.node p.node hqn hpn hnode
      exact hs.single p.node _ d (h.isVirtual_placed hpn ▸ hv) hp (hnode ▸ hcolumn ▸ hq)

theorem forces_kept (hpq : t.Forces s p q) : g.Forces s p q :=
  of_le (fun _ _ hpq => .rel _ _ (h.relates_iff.mpr (.inl hpq))) hpq

theorem forces_placed (hpq : source.Forces s p q) : g.Forces s (p.map π) (q.map π) :=
  map (Slot.map π) (fun p q hpq => .rel _ _ (h.relates_iff.mpr (.inr ⟨p, q, hpq, rfl, rfl⟩))) hpq

-- Slots that are equal by the joins of both graphs are so by those of one of them.
theorem forces_cases (ht : t.WellFormed) (hs : source.WellFormed) (hpq : g.Forces s p q) :
    p = q ∨ (t.contains p.node = true ∧ t.contains q.node = true ∧ t.Forces s p q) ∨
    ∃ p' q', source.contains p'.node = true ∧ source.contains q'.node = true ∧ p'.map π = p ∧ q'.map π = q ∧
      source.Forces s p' q' := by
  induction hpq
  case rel hpq =>
    rcases h.relates_iff.mp hpq with hpq | ⟨p', q', hpq, hp, hq⟩
    · exact .inr (.inl ⟨ht.contains_of_uses ⟨_, .inl hpq⟩, ht.contains_of_uses ⟨_, .inr hpq⟩, .rel _ _ hpq⟩)
    · exact .inr (.inr ⟨p', q', hs.contains_of_uses ⟨_, .inl hpq⟩, hs.contains_of_uses ⟨_, .inr hpq⟩, hp, hq,
        .rel _ _ hpq⟩)
  case refl => exact .inl rfl
  case symm ih =>
    rcases ih with rfl | ⟨hp, hq, hpq⟩ | ⟨p', q', hp', hq', hp, hq, hpq⟩
    · exact .inl rfl
    · exact .inr (.inl ⟨hq, hp, .symm _ _ hpq⟩)
    · exact .inr (.inr ⟨q', p', hq', hp', hq, hp, .symm _ _ hpq⟩)
  case trans ih ih' =>
    -- A chain cannot change over, as no slot belongs to both graphs.
    rcases ih with rfl | ⟨hp, hq, hpq⟩ | ⟨p', q', hp', hq', hp, hq, hpq⟩
    · exact ih'
    · rcases ih' with rfl | ⟨_, hr, hqr⟩ | ⟨q', r', hq', _, rfl, _, _⟩
      · exact .inr (.inl ⟨hp, hq, hpq⟩)
      · exact .inr (.inl ⟨hp, hr, .trans _ _ _ hpq hqr⟩)
      · simp [Slot.map, h.new _ hq'] at hq
    · rcases ih' with rfl | ⟨hq₂, _, _⟩ | ⟨q₂, r', hq₂, hr', heq, hr, hqr⟩
      · exact .inr (.inr ⟨p', q', hp', hq', hp, hq, hpq⟩)
      · cases hq
        simp [Slot.map, h.new _ hq'] at hq₂
      · have hslot := h.slot_inj hq' hq₂ (hq.trans heq.symm)
        exact .inr (.inr ⟨p', r', hp', hr', hp, hr, .trans _ _ _ hpq (hslot ▸ hqr)⟩)

end Copied

-- A merger is made of copies of both graphs side by side, to which joins are added.
theorem merge_copies (hf : first.WellFormed) (hs : second.WellFormed) :
    ∃ π ρ g₁ g₂, Copied empty first g₁ π ∧ Copied g₁ second g₂ ρ ∧ ∀ s joins, merge s first second joins =
      joins.foldl (fun g j => addConnection s (ρ j.second) g (π j.first) none j.connection) g₂ := by
  have h₁ : Copied empty first _ _ := copied_copyInto .empty hf
  have h₂ : Copied (empty.copyInto first).1 second _ _ := copied_copyInto h₁.wellFormed hs
  exact ⟨_, _, _, _, h₁, h₂, fun _ _ => rfl⟩

end QueryGraph

end Subplans
