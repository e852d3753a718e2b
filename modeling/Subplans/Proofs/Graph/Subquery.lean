import Mathlib.Data.List.Induction
import Subplans.Proofs.Graph.Changes
import Subplans.Proofs.Graph.Forces
import Subplans.Proofs.Graph.Visits
import Subplans.Proofs.Merge.Copy
import Subplans.Proofs.Schema.Keys
import Subplans.Query.Subquery

/-!
Sub-queries.

A sub-query has the nodes that are kept, in their order, and behind them a virtual node for every node that is left out
and shared. Its edges stand for edges of the graph (`Selects.origin`). The edges between kept nodes are all there, and
those to the same columns of a node that is left out still lead to one node (`Selects.shared`).
-/

namespace Subplans.QueryGraph

variable {s : Schema} {g sub : QueryGraph} {kept ids selected : List Nat} {n m i e : Nat} {x y : Edge} {r : Nat × Nat}
  {columns : List ColumnRef} {list : List Shared} {h : Shared} {edges : List Edge}

-- The columns that an edge refers to.
def referred (s : Schema) (x : Edge) : List ColumnRef :=
  columnSet ((s.key x.key).pairs.map Prod.snd)

-- What tells the nodes that are left out apart, with the columns that are referred to.
def Shared.mark (h : Shared) : Nat × List ColumnRef :=
  (h.node, h.columns)

-- The references to some columns of a node.
def referencesOf (list : List Shared) (mark : Nat × List ColumnRef) : List (Nat × Nat) :=
  ((list.find? (·.mark == mark)).map Shared.references).getD []

theorem references_of_mem (hlist : (list.map Shared.mark).Nodup) (hmem : h ∈ list) :
    referencesOf list h.mark = h.references := by
  have hfound : list.find? (·.mark == h.mark) = some h := by
    have hsome : (list.find? (·.mark == h.mark)).isSome := List.find?_isSome.mpr ⟨h, hmem, by simp⟩
    have ⟨h', hh'⟩ := Option.isSome_iff_exists.mp hsome
    have hmark : h'.mark = h.mark := by simpa using List.find?_some hh'
    rw [hh', List.inj_on_of_nodup_map hlist (List.mem_of_find?_eq_some hh') hmem hmark]
  rw [referencesOf, hfound, Option.map_some, Option.getD_some]

theorem exists_of_referencesOf {mark : Nat × List ColumnRef} (hr : r ∈ referencesOf list mark) :
    ∃ h ∈ list, h.mark = mark := by
  unfold referencesOf at hr
  cases hfound : list.find? (·.mark == mark)
  case none => simp [hfound] at hr
  case some h => exact ⟨h, List.mem_of_find?_eq_some hfound, by simpa using List.find?_some hfound⟩

theorem mark_eq : h.mark = (n, columns) ↔ (h.node == n && h.columns == columns) = true := by
  simp [Shared.mark]

-- A reference is added to those to the same columns of the same node.
theorem referencesOf_share {mark : Nat × List ColumnRef} : referencesOf (share n columns r list) mark =
    if mark = (n, columns) then referencesOf list mark ++ [r] else referencesOf list mark := by
  induction list
  case nil =>
    by_cases hmark : mark = (n, columns)
    case pos => simp [share, referencesOf, Shared.mark, hmark]
    case neg => simp [share, referencesOf, Shared.mark, hmark, Ne.symm hmark]
  case cons h list ih =>
    have hcons : ∀ h list, referencesOf (h :: list) mark =
        if h.mark = mark then h.references else referencesOf list mark := by
      intro h list
      rw [referencesOf, List.find?_cons]
      cases hmark : h.mark == mark
      case true => simp [beq_iff_eq.mp hmark]
      case false => simp [beq_eq_false_iff_ne.mp hmark, referencesOf]
    rw [share]
    split
    case isTrue heq =>
      have heq := mark_eq.mpr heq
      have hsame : Shared.mark { h with references := h.references ++ [r] } = h.mark := rfl
      rw [hcons, hcons, hsame, heq]
      by_cases hmark : (n, columns) = mark
      case pos => simp [hmark]
      case neg => simp [hmark, Ne.symm hmark]
    case isFalse hne =>
      have hne := mt mark_eq.mp hne
      rw [hcons, hcons, ih]
      by_cases hmark : h.mark = mark
      case pos => simp [← hmark, hne]
      case neg => simp [hmark]

theorem nodup_share (hlist : (list.map Shared.mark).Nodup) : ((share n columns r list).map Shared.mark).Nodup := by
  have hmarks : (share n columns r list).map Shared.mark = list.map Shared.mark ∨
      ((n, columns) ∉ list.map Shared.mark ∧
        (share n columns r list).map Shared.mark = list.map Shared.mark ++ [(n, columns)]) := by
    clear hlist
    induction list
    case nil => exact .inr ⟨nofun, rfl⟩
    case cons h list ih =>
      rw [share]
      split
      case isTrue => exact .inl rfl
      case isFalse hne =>
        have hne := Ne.symm (mt mark_eq.mp hne)
        simpa [hne] using ih
  rcases hmarks with heq | ⟨hnew, heq⟩
  case inl => rwa [heq]
  case inr =>
    rw [heq, List.nodup_append]
    exact ⟨hlist, List.nodup_singleton _, fun a ha b hb h => hnew (List.mem_singleton.mp hb ▸ h ▸ ha)⟩

-- What becomes of edges: those to kept nodes stay, and the others are references.
structure Sorted (s : Schema) (g : QueryGraph) (kept ids : List Nat) (acc : List Edge × List Shared) : Prop where
  stay       : ∀ x, x ∈ acc.1 ↔ ∃ e ∈ ids, g.edge? e = some x ∧ x.target ∈ kept
  marks      : (acc.2.map Shared.mark).Nodup
  references : ∀ mark r, r ∈ referencesOf acc.2 mark ↔ ∃ e ∈ ids, ∃ x, g.edge? e = some x ∧ x.target ∉ kept ∧
    mark = (x.target, referred s x) ∧ r = (x.source, x.key)

theorem sorted_foldl : Sorted s g kept ids (ids.foldl (splitEdge g s kept) ([], [])) := by
  induction ids using List.reverseRecOn
  case nil => exact ⟨by simp, List.nodup_nil, by simp [referencesOf]⟩
  case append_singleton ids e ih =>
    rw [List.foldl_concat]
    generalize ids.foldl (splitEdge g s kept) ([], []) = acc at ih
    unfold splitEdge
    split
    case h_1 he =>
      refine ⟨fun x => ?_, ih.marks, fun mark r => ?_⟩
      · simp [ih.stay, or_and_right, exists_or, he]
      · simp [ih.references, or_and_right, exists_or, he]
    case h_2 x he =>
      split
      case isTrue hkept =>
        rw [List.contains_iff_mem] at hkept
        refine ⟨fun y => ?_, ih.marks, fun mark r => ?_⟩
        · simp only [List.mem_append, List.mem_singleton, ih.stay, or_and_right, exists_or, exists_eq_left, he,
            Option.some.injEq]
          refine or_congr_right ⟨?_, fun h => h.1.symm⟩
          rintro rfl
          exact ⟨rfl, hkept⟩
        · simp [ih.references, or_and_right, exists_or, he, hkept]
      case isFalse hkept =>
        rw [List.contains_iff_mem] at hkept
        refine ⟨fun y => ?_, nodup_share ih.marks, fun mark r => ?_⟩
        · simp only [List.mem_append, List.mem_singleton, ih.stay, or_and_right, exists_or, exists_eq_left, he,
            Option.some.injEq]
          refine (or_iff_left ?_).symm
          rintro ⟨rfl, h⟩
          exact hkept h
        · have hmark : (x.target, columnSet ((s.key x.key).pairs.map Prod.snd)) = (x.target, referred s x) := rfl
          rw [referencesOf_share, hmark]
          simp only [List.mem_append, List.mem_singleton, or_and_right, exists_or, exists_eq_left, he,
            Option.some.injEq, ← ih.references, exists_eq_left']
          split <;> simp_all

theorem getElem?_concat {α : Type} {l : List α} {a b : α} {i : Nat} :
    (l ++ [a])[i]? = some b ↔ l[i]? = some b ∨ (i = l.length ∧ a = b) := by
  grind

-- The graph has a node for each kept node, and no edges.
structure Kept (g : QueryGraph) (kept : List Nat) (sub : QueryGraph) : Prop where
  wellFormed : sub.WellFormed
  length     : sub.slots.length = kept.length
  nodes      : sub.nodes = List.range kept.length
  node       : ∀ (i : Nat) n, kept[i]? = some n → sub.node? i = some (g.node n) ∧ sub.aliasName i = g.aliasName n
  edges      : sub.edges = []

theorem kept_foldl (hg : g.WellFormed) (hnodup : kept.Nodup) (hkept : ∀ n ∈ kept, g.contains n = true) :
    Kept g kept (kept.foldl (fun sub n => (sub.add (g.node n) (g.aliasName n)).2) empty) := by
  induction kept using List.reverseRecOn
  case nil => exact ⟨.empty, rfl, rfl, by simp, rfl⟩
  case append_singleton kept n ih =>
    have ⟨hnodup, _, hnew⟩ := List.nodup_append.mp hnodup
    have ih := ih hnodup fun m hm => hkept m (List.mem_append_left _ hm)
    rw [List.foldl_concat]
    generalize kept.foldl (fun sub n => (sub.add (g.node n) (g.aliasName n)).2) empty = sub at ih
    -- Aliases that are different in the graph do not collide.
    have hfree : sub.byAlias? (g.aliasName n) = none := by
      refine ih.wellFormed.byAlias?_eq_none fun m hm heq => ?_
      rw [ih.nodes, List.mem_range] at hm
      have hmem : kept[m] ∈ kept := List.getElem_mem hm
      rw [(ih.node m _ (List.getElem?_eq_getElem hm)).2] at heq
      have hsame := hg.aliasName_inj (hkept _ (List.mem_append_left _ hmem)) (hkept n (by simp)) heq
      exact hnew _ hmem n List.mem_cons_self hsame
    have hadded : Added sub (sub.add (g.node n) (g.aliasName n)).2 (g.node n) := added_add hfree
    constructor
    case wellFormed => exact hadded.wellFormed ih.wellFormed
    case length => simp [hadded.length, ih.length]
    case nodes => simp [hadded.nodes, ih.nodes, ih.length, List.range_succ]
    case node =>
      intro i m hm
      rw [hadded.node?, aliasName_add, ih.length]
      rcases getElem?_concat.mp hm with hm | ⟨rfl, rfl⟩
      · have hne := Nat.ne_of_lt (List.getElem?_eq_some_iff.mp hm).1
        simpa [hne] using ih.node i m hm
      · simp
    case edges => exact hadded.edges.trans ih.edges

-- Behind the kept nodes there is a virtual node for each of those that are left out, with edges for the references.
structure Extended (s : Schema) (g : QueryGraph) (kept : List Nat) (list : List Shared) (edges : List Edge)
    (acc : QueryGraph × List Edge) : Prop where
  wellFormed : acc.1.WellFormed
  length     : acc.1.slots.length = kept.length + list.length
  nodes      : acc.1.nodes = List.range (kept.length + list.length)
  node       : ∀ (i : Nat) n, kept[i]? = some n → acc.1.node? i = some (g.node n) ∧ acc.1.aliasName i = g.aliasName n
  fresh      : ∀ (i : Nat) h, list[i]? = some h →
    acc.1.node? (kept.length + i) = some (.virtual s (g.node h.node).table)
  noEdges    : acc.1.edges = []
  edges      : ∀ x, x ∈ acc.2 ↔ x ∈ edges ∨
    ∃ (i : Nat) (h : Shared), list[i]? = some h ∧ ∃ r ∈ h.references, x = ⟨kept.idxOf r.1, r.2, kept.length + i⟩

-- Adds the virtual node for one that is left out.
def extend (s : Schema) (g : QueryGraph) (kept : List Nat) (acc : QueryGraph × List Edge) (h : Shared) :
    QueryGraph × List Edge :=
  let (n, sub) := acc.1.addFresh (.virtual s (g.node h.node).table)
  (sub, acc.2 ++ h.references.map fun (source, key) => (⟨kept.idxOf source, key, n⟩ : Edge))

theorem extended_foldl (hsub : Kept g kept sub) (list : List Shared) (edges : List Edge) :
    Extended s g kept list edges (list.foldl (extend s g kept) (sub, edges)) := by
  induction list using List.reverseRecOn
  case nil => exact ⟨hsub.wellFormed, hsub.length, hsub.nodes, hsub.node, by simp, hsub.edges, by simp⟩
  case append_singleton list h ih =>
    rw [List.foldl_concat]
    generalize list.foldl (extend s g kept) (sub, edges) = acc at ih
    have hadded : Added acc.1 (extend s g kept acc h).1 (.virtual s (g.node h.node).table) := added_addFresh
    have hsnd : (extend s g kept acc h).2 = acc.2 ++ h.references.map fun (source, key) =>
        (⟨kept.idxOf source, key, kept.length + list.length⟩ : Edge) := by
      rw [← ih.length]
      rfl
    constructor
    case wellFormed => exact hadded.wellFormed ih.wellFormed
    case length =>
      rw [hadded.length, ih.length, List.length_append]
      rfl
    case nodes =>
      rw [hadded.nodes, ih.nodes, ih.length, List.length_append]
      exact List.range_succ.symm
    case node =>
      intro i n hn
      have hlt : i < kept.length := (List.getElem?_eq_some_iff.mp hn).1
      have hne : i ≠ acc.1.slots.length := by
        rw [ih.length]
        omega
      rw [hadded.node?, hadded.aliasName i hne, if_neg hne]
      exact ih.node i n hn
    case fresh =>
      intro i h' hh
      rw [hadded.node?, ih.length]
      rcases getElem?_concat.mp hh with hh | ⟨rfl, rfl⟩
      · have hlt := (List.getElem?_eq_some_iff.mp hh).1
        rw [if_neg (by omega), ih.fresh i h' hh]
      · rw [if_pos rfl]
    case noEdges => exact hadded.edges.trans ih.noEdges
    case edges =>
      intro x
      simp only [hsnd, List.mem_append, ih.edges, getElem?_concat, or_assoc, or_and_right, exists_or, List.mem_map]
      refine or_congr_right (or_congr_right ⟨?_, ?_⟩)
      · rintro ⟨r, hr, rfl⟩
        exact ⟨list.length, h, ⟨rfl, rfl⟩, r, hr, rfl⟩
      · rintro ⟨_, _, ⟨rfl, rfl⟩, r, hr, rfl⟩
        exact ⟨r, hr, rfl⟩

-- The graph with some edges more.
def withEdges (g : QueryGraph) (edges : List Edge) : QueryGraph :=
  edges.foldl (fun g x => (g.addEdge x.source x.key x.target).2) g

theorem edges_withEdges : (g.withEdges edges).edges = g.edges ++ edges.map some := by
  induction edges generalizing g
  case nil => simp [withEdges]
  case cons x edges ih =>
    have hcons : g.withEdges (x :: edges) = (g.addEdge x.source x.key x.target).2.withEdges edges := rfl
    rw [hcons, ih]
    simp [addEdge]

-- Adding some edges between nodes that are there adds just these.
theorem withEdges_adds (hg : g.WellFormed)
    (hedges : ∀ x ∈ edges, g.contains x.source = true ∧ g.contains x.target = true) :
    (g.withEdges edges).WellFormed ∧ SameNodes g (g.withEdges edges) ∧
      ∀ y, (g.withEdges edges).HasEdge y ↔ y ∈ edges ∨ g.HasEdge y := by
  induction edges generalizing g
  case nil => exact ⟨hg, .refl, by simp [withEdges]⟩
  case cons x edges ih =>
    have ⟨hs, ht⟩ := hedges x List.mem_cons_self
    have hsame : SameNodes g (g.addEdge x.source x.key x.target).2 := sameNodes_addEdge
    have hrest : ∀ y ∈ edges, (g.addEdge x.source x.key x.target).2.contains y.source = true ∧
        (g.addEdge x.source x.key x.target).2.contains y.target = true := by
      intro y hy
      rw [hsame.contains, hsame.contains]
      exact hedges y (List.mem_cons_of_mem _ hy)
    have ⟨hwf, hnodes, hall⟩ := ih (hg.addEdge hs ht) hrest
    have hcons : g.withEdges (x :: edges) = (g.addEdge x.source x.key x.target).2.withEdges edges := rfl
    rw [hcons]
    refine ⟨hwf, hsame.trans hnodes, fun y => ?_⟩
    rw [hall, hasEdge_addEdge, List.mem_cons, or_left_comm, ← or_assoc]

-- The edge leads from a kept node to the one that is left out, and refers to its columns.
structure Leaves (s : Schema) (g : QueryGraph) (kept : List Nat) (h : Shared) (y : Edge) : Prop where
  hasEdge : g.HasEdge y
  source  : y.source ∈ kept
  target  : y.target ∉ kept
  mark    : h.mark = (y.target, referred s y)

-- The graph is the sub-query over the nodes `kept`, with virtual nodes for those that are `left` out and shared.
structure Selects (s : Schema) (g : QueryGraph) (kept : List Nat) (left : List Shared) (f : QueryGraph) : Prop where
  wellFormed : f.WellFormed
  nodes      : f.nodes = List.range (kept.length + left.length)
  node       : ∀ (i : Nat) n, kept[i]? = some n → f.node? i = some (g.node n) ∧ f.aliasName i = g.aliasName n
  fresh      : ∀ (i : Nat) h, left[i]? = some h → f.node? (kept.length + i) = some (.virtual s (g.node h.node).table)
  hasEdge    : ∀ x, f.HasEdge x ↔
    (∃ y, g.HasEdge y ∧ y.source ∈ kept ∧ y.target ∈ kept ∧ x = y.map kept.idxOf) ∨
    ∃ (i : Nat) (h : Shared), left[i]? = some h ∧
      ∃ y, Leaves s g kept h y ∧ x = ⟨kept.idxOf y.source, y.key, kept.length + i⟩
  -- Two edges to the same columns of a node make it a shared one.
  shared     : ∀ y y', g.HasEdge y → g.HasEdge y' → y ≠ y' → y.source ∈ kept → y'.source ∈ kept →
    y.target = y'.target → y.target ∉ kept → referred s y = referred s y' →
    ∃ (i : Nat) (h : Shared), left[i]? = some h ∧ Leaves s g kept h y ∧ Leaves s g kept h y'
  used       : ∀ h ∈ left, ∃ y, Leaves s g kept h y

-- The nodes of a selection, in the order of the graph.
def keeping (g : QueryGraph) (selected : List Nat) : List Nat :=
  g.nodes.filter selected.contains

theorem mem_keeping (hg : g.Linked) : n ∈ g.keeping selected ↔ g.contains n = true ∧ n ∈ selected := by
  rw [keeping, List.mem_filter, hg.mem_nodes, List.contains_iff_mem]

theorem exists_outgoing (hg : g.Linked) :
    (∃ e ∈ kept.flatMap g.outgoing, g.edge? e = some x) ↔ g.HasEdge x ∧ x.source ∈ kept := by
  simp only [List.mem_flatMap, hg.mem_outgoing, HasEdge]
  constructor
  · rintro ⟨e, ⟨_, hn, y, hy, rfl⟩, hx⟩
    cases hy.symm.trans hx
    exact ⟨⟨e, hx⟩, hn⟩
  · rintro ⟨⟨e, hx⟩, hs⟩
    exact ⟨e, ⟨x.source, hs, x, hx, rfl⟩, hx⟩

theorem one_lt_length {α : Type} {l : List α} {a b : α} (ha : a ∈ l) (hb : b ∈ l) (hne : a ≠ b) : 1 < l.length := by
  match l with
  | [c] => simp_all
  | _ :: _ :: _ => simp

theorem contains_iff_lt {f : QueryGraph} {size : Nat} (hf : f.WellFormed) (hnodes : f.nodes = List.range size) :
    f.contains n = true ↔ n < size := by
  rw [← hf.mem_nodes, hnodes, List.mem_range]

namespace Sorted

variable {acc : List Edge × List Shared}

-- The edges that stay are those between kept nodes.
theorem mem_stay (hsorted : Sorted s g kept (kept.flatMap g.outgoing) acc) (hg : g.Linked) :
    y ∈ acc.1 ↔ g.HasEdge y ∧ y.source ∈ kept ∧ y.target ∈ kept := by
  rw [hsorted.stay, ← and_assoc, ← exists_outgoing hg]
  simp only [← and_assoc, exists_and_right]

-- The references to a node that is left out are the edges to it.
theorem mem_references (hsorted : Sorted s g kept (kept.flatMap g.outgoing) acc) (hg : g.Linked) (hh : h ∈ acc.2) :
    r ∈ h.references ↔ ∃ y, Leaves s g kept h y ∧ r = (y.source, y.key) := by
  rw [← references_of_mem hsorted.marks hh, hsorted.references]
  constructor
  · rintro ⟨e, he, y, hy, ht, hm, hr⟩
    have ⟨hedge, hs⟩ := (exists_outgoing hg).mp ⟨e, he, hy⟩
    exact ⟨y, ⟨hedge, hs, ht, hm⟩, hr⟩
  · rintro ⟨y, hy, hr⟩
    have ⟨e, he, hedge⟩ := (exists_outgoing hg).mpr ⟨hy.hasEdge, hy.source⟩
    exact ⟨e, he, y, hedge, hy.target, hy.mark, hr⟩

-- Two edges to the same columns of a node that is left out make it a shared one.
theorem shared (hsorted : Sorted s g kept (kept.flatMap g.outgoing) acc) (hg : g.Linked) {y' : Edge}
    (hy : g.HasEdge y) (hy' : g.HasEdge y') (hne : y ≠ y') (hs : y.source ∈ kept) (hs' : y'.source ∈ kept)
    (ht : y.target = y'.target) (hleft : y.target ∉ kept) (hreferred : referred s y = referred s y') :
    ∃ h ∈ acc.2.filter (1 < ·.references.length), Leaves s g kept h y ∧ Leaves s g kept h y' := by
  have ⟨e, he, hedge⟩ := (exists_outgoing hg).mpr ⟨hy, hs⟩
  have hr : (y.source, y.key) ∈ referencesOf acc.2 (y.target, referred s y) :=
    (hsorted.references _ _).mpr ⟨e, he, y, hedge, hleft, rfl, rfl⟩
  obtain ⟨h, hh, hmark⟩ := exists_of_referencesOf hr
  have hl : Leaves s g kept h y := ⟨hy, hs, hleft, hmark⟩
  have hl' : Leaves s g kept h y' := ⟨hy', hs', ht ▸ hleft, by rw [hmark, ht, hreferred]⟩
  -- The two references are different, as the edges are.
  have hdiff : (y.source, y.key) ≠ (y'.source, y'.key) := by
    intro heq
    cases y
    cases y'
    simp_all
  have hlong : 1 < h.references.length :=
    one_lt_length ((hsorted.mem_references hg hh).mpr ⟨y, hl, rfl⟩)
      ((hsorted.mem_references hg hh).mpr ⟨y', hl', rfl⟩) hdiff
  exact ⟨h, List.mem_filter.mpr ⟨hh, by simpa using hlong⟩, hl, hl'⟩

variable {ext : QueryGraph × List Edge}

-- The edges that are added at last: those that stay, and those to the new nodes.
theorem mem_edges (hsorted : Sorted s g kept (kept.flatMap g.outgoing) acc) (hg : g.Linked)
    (hext : Extended s g kept (acc.2.filter (1 < ·.references.length)) (acc.1.map (·.map kept.idxOf)) ext) :
    x ∈ ext.2 ↔
      (∃ y, g.HasEdge y ∧ y.source ∈ kept ∧ y.target ∈ kept ∧ x = y.map kept.idxOf) ∨
      ∃ (i : Nat) (h : Shared), (acc.2.filter (1 < ·.references.length))[i]? = some h ∧
        ∃ y, Leaves s g kept h y ∧ x = ⟨kept.idxOf y.source, y.key, kept.length + i⟩ := by
  rw [hext.edges]
  refine or_congr ?_ (exists_congr fun i => exists_congr fun h => and_congr_right fun hh => ?_)
  · simp only [List.mem_map, hsorted.mem_stay hg, and_assoc, eq_comm (b := x)]
  · simp only [hsorted.mem_references hg (List.mem_of_mem_filter (List.mem_of_getElem? hh))]
    constructor
    · rintro ⟨_, ⟨y, hy, rfl⟩, rfl⟩
      exact ⟨y, hy, rfl⟩
    · rintro ⟨y, hy, rfl⟩
      exact ⟨_, ⟨y, hy, rfl⟩, rfl⟩

theorem contains_ends (hsorted : Sorted s g kept (kept.flatMap g.outgoing) acc) (hg : g.Linked)
    (hext : Extended s g kept (acc.2.filter (1 < ·.references.length)) (acc.1.map (·.map kept.idxOf)) ext) :
    ∀ x ∈ ext.2, ext.1.contains x.source = true ∧ ext.1.contains x.target = true := by
  have hlt := fun {n} => contains_iff_lt (n := n) hext.wellFormed hext.nodes
  have hplace : ∀ n ∈ kept, ext.1.contains (kept.idxOf n) = true := by
    intro n hn
    exact hlt.mpr (Nat.lt_add_right _ (List.idxOf_lt_length_iff.mpr hn))
  intro x hx
  rcases (hsorted.mem_edges hg hext).mp hx with ⟨y, _, hs, ht, rfl⟩ | ⟨i, h, hh, y, hy, rfl⟩
  · exact ⟨hplace _ hs, hplace _ ht⟩
  · have hi := (List.getElem?_eq_some_iff.mp hh).1
    exact ⟨hplace _ hy.source, hlt.mpr (Nat.add_lt_add_left hi _)⟩

theorem selects (hsorted : Sorted s g kept (kept.flatMap g.outgoing) acc) (hg : g.Linked)
    (hext : Extended s g kept (acc.2.filter (1 < ·.references.length)) (acc.1.map (·.map kept.idxOf)) ext) :
    Selects s g kept (acc.2.filter (1 < ·.references.length)) (ext.1.withEdges ext.2) := by
  have ⟨hwf, hsame, hall⟩ := withEdges_adds hext.wellFormed (hsorted.contains_ends hg hext)
  constructor
  case wellFormed => exact hwf
  case nodes => exact hsame.nodes.trans hext.nodes
  case node =>
    intro i n hn
    rw [hsame.node?, hsame.aliasName]
    exact hext.node i n hn
  case fresh =>
    intro i h hh
    rw [hsame.node?]
    exact hext.fresh i h hh
  case hasEdge =>
    intro x
    have hnone : ¬ext.1.HasEdge x := by simp [hasEdge_iff_mem, hext.noEdges]
    rw [hall, hsorted.mem_edges hg hext, or_iff_left hnone]
  case shared =>
    intro y y' hy hy' hne hs hs' ht hout hreferred
    obtain ⟨h, hh, hl, hl'⟩ := hsorted.shared hg hy hy' hne hs hs' ht hout hreferred
    obtain ⟨i, hi⟩ := List.mem_iff_getElem?.mp hh
    exact ⟨i, h, hi, hl, hl'⟩
  case used =>
    intro h hh
    have ⟨hacc, hlong⟩ := List.mem_filter.mp hh
    have hpos : 0 < h.references.length := Nat.zero_lt_of_lt (of_decide_eq_true hlong)
    have ⟨y, hy, _⟩ := (hsorted.mem_references hg hacc).mp (List.getElem_mem hpos)
    exact ⟨y, hy⟩

end Sorted

theorem kept_keeping (hg : g.WellFormed) (selected : List Nat) : Kept g (g.keeping selected)
    ((g.keeping selected).foldl (fun sub n => (sub.add (g.node n) (g.aliasName n)).2) empty) :=
  kept_foldl hg (hg.nodup_nodes.filter _) fun _ hn => ((mem_keeping hg.linked).mp hn).1

-- The nodes that are left out and shared.
def sharedBy (s : Schema) (g : QueryGraph) (kept : List Nat) : List Shared :=
  ((kept.flatMap g.outgoing).foldl (splitEdge g s kept) ([], [])).2.filter (1 < ·.references.length)

theorem selects_sharedBy (s : Schema) (hg : g.WellFormed) (selected : List Nat) :
    Selects s g (g.keeping selected) (sharedBy s g (g.keeping selected)) (g.subquery s selected) := by
  have hsorted : Sorted s g (g.keeping selected) ((g.keeping selected).flatMap g.outgoing) _ := sorted_foldl
  exact hsorted.selects hg.linked (extended_foldl (kept_keeping hg selected) _ _)

theorem selects_subquery (s : Schema) (hg : g.WellFormed) (selected : List Nat) :
    ∃ left, Selects s g (g.keeping selected) left (g.subquery s selected) :=
  ⟨_, selects_sharedBy s hg selected⟩

end Subplans.QueryGraph
