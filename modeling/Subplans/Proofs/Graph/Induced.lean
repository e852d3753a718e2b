import Mathlib.Data.List.Sort
import Subplans.Proofs.Graph.Factors

/-!
The edges of sub-queries, as often as they are there.

An edge from a kept node survives if it leads to a kept node as well, or if it is not the only one from a kept node to
the same columns of a node that is left out. A sub-query has just these edges, each as often as the graph
(`induced_subquery`).
-/

namespace Subplans.QueryGraph

variable {s : Schema} {g f sub : QueryGraph} {kept ids selected : List Nat} {n e e' : Nat} {x y : Edge}
  {edges : List Edge} {left list : List Shared} {mark : Nat × List ColumnRef} {marks : List (Nat × List ColumnRef)}

theorem before_trans {a b c : ColumnRef} (h : a.before b) (h' : b.before c) : a.before c := by
  simp only [ColumnRef.before, Bool.or_eq_true, Bool.and_eq_true, decide_eq_true_iff, beq_iff_eq] at h h' ⊢
  omega

theorem before_of_not {a b : ColumnRef} (hne : ¬(a == b) = true) (h : ¬a.before b) : b.before a := by
  have hne : ¬(a.table = b.table ∧ a.column = b.column) := by
    rintro ⟨_, _⟩
    cases a
    cases b
    simp_all
  simp only [ColumnRef.before, Bool.or_eq_true, Bool.and_eq_true, decide_eq_true_iff, beq_iff_eq] at h ⊢
  omega

theorem pairwise_merge {as bs : List ColumnRef} (ha : as.Pairwise (·.before ·)) (hb : bs.Pairwise (·.before ·)) :
    (Links.merge as bs).Pairwise (·.before ·) := by
  fun_induction Links.merge as bs
  case case1 => exact hb
  case case2 => exact ha
  all_goals
    obtain ⟨hafirst, harest⟩ := List.pairwise_cons.mp ha
    obtain ⟨hbfirst, hbrest⟩ := List.pairwise_cons.mp hb
    refine List.pairwise_cons.mpr ⟨fun c hc => ?_, ?_⟩
  case case3.refine_1 heq _ =>
    cases beq_iff_eq.mp heq
    exact ((Links.mem_merge _ _).mp hc).elim (hafirst c) (hbfirst c)
  case case3.refine_2 ih => exact ih harest hbrest
  case case4.refine_1 hbefore _ =>
    rcases (Links.mem_merge _ _).mp hc with hc | hc
    · exact hafirst c hc
    · rcases List.mem_cons.mp hc with rfl | hc
      · exact hbefore
      · exact before_trans hbefore (hbfirst c hc)
  case case4.refine_2 ih => exact ih harest hb
  case case5.refine_1 hne hbefore _ =>
    have hbefore := before_of_not hne hbefore
    rcases (Links.mem_merge _ _).mp hc with hc | hc
    · rcases List.mem_cons.mp hc with rfl | hc
      · exact hbefore
      · exact before_trans hbefore (hafirst c hc)
    · exact hbfirst c hc
  case case5.refine_2 ih => exact ih ha hbrest

theorem mem_columnSet {columns : List ColumnRef} {c : ColumnRef} : c ∈ columnSet columns ↔ c ∈ columns := by
  induction columns using List.reverseRecOn
  case nil => rfl
  case append_singleton columns d ih =>
    rw [columnSet, List.foldl_concat, Links.mem_merge, List.mem_append]
    exact or_congr_left ih

theorem pairwise_columnSet {columns : List ColumnRef} : (columnSet columns).Pairwise (·.before ·) := by
  induction columns using List.reverseRecOn
  case nil => exact .nil
  case append_singleton columns d ih =>
    rw [columnSet, List.foldl_concat]
    exact pairwise_merge ih (List.pairwise_singleton _ _)

-- Edges refer to columns alike if these are the same, in whatever order and however often.
theorem referred_eq (h : ∀ c, c ∈ (s.key x.key).pairs.map Prod.snd ↔ c ∈ (s.key y.key).pairs.map Prod.snd) :
    referred s x = referred s y := by
  have irrefl : ∀ a : ColumnRef, ¬a.before a := by simp [ColumnRef.before]
  have : Std.Irrefl (fun a b : ColumnRef => a.before b = true) := ⟨irrefl⟩
  have : Std.Asymm (fun a b : ColumnRef => a.before b = true) := ⟨fun a b hab hba => irrefl a (before_trans hab hba)⟩
  exact pairwise_columnSet.eq_of_mem_iff pairwise_columnSet fun c => by
    rw [mem_columnSet, h, referred, mem_columnSet]

-- The edges, as often as they are there.
def edgeList (g : QueryGraph) : List Edge :=
  g.edges.filterMap id

theorem mem_edgeList : x ∈ g.edgeList ↔ g.HasEdge x := by
  simp [edgeList, hasEdge_iff_mem]

theorem edgeList_eq : g.edgeList = g.edgeIds.filterMap g.edge? := by
  have hedges : g.edges = (List.range g.edges.length).map g.edge? := by
    refine List.ext_getElem (by simp) fun e he _ => ?_
    simp [edge?, he]
  have hall : g.edgeList = (List.range g.edges.length).filterMap g.edge? := by
    rw [edgeList, hedges, List.filterMap_map, List.length_map, List.length_range]
    rfl
  rw [hall, edgeIds, List.filterMap_filter]
  refine List.filterMap_congr fun e _ => ?_
  cases g.edge? e <;> rfl

-- The edges from kept nodes.
theorem perm_leaving (hg : g.WellFormed) (hkept : kept.Nodup) :
    ((kept.flatMap g.outgoing).filterMap g.edge?).Perm (g.edgeList.filter (·.source ∈ kept)) := by
  have hnodup : (kept.flatMap g.outgoing).Nodup := by
    refine List.nodup_flatMap.mpr ⟨fun n _ => hg.nodup_outgoing, hkept.imp fun {m n} hne e hm hn => ?_⟩
    have ⟨x, hx, hxm⟩ := (hg.wired.mem_outgoing m e).mp hm
    have ⟨y, hy, hyn⟩ := (hg.wired.mem_outgoing n e).mp hn
    cases hx.symm.trans hy
    exact hne (hxm.symm.trans hyn)
  have hids : (kept.flatMap g.outgoing).Perm (g.edgeIds.filter fun e => (g.edge? e).any (·.source ∈ kept)) := by
    refine (List.perm_ext_iff_of_nodup hnodup (nodup_edgeIds.filter _)).mpr fun e => ?_
    simp only [List.mem_flatMap, hg.wired.mem_outgoing, List.mem_filter, mem_edgeIds]
    cases g.edge? e <;> simp
  refine (hids.filterMap _).trans (.of_eq ?_)
  rw [edgeList_eq, List.filterMap_filter, List.filter_filterMap]
  refine List.filterMap_congr fun e _ => ?_
  cases g.edge? e <;> simp [Option.filter]

-- What an edge to a node that is left out refers to.
def markOf (s : Schema) (x : Edge) : Nat × List ColumnRef :=
  (x.target, referred s x)

-- The edge leads from a kept node to the marked columns of a node that is left out.
def Refers (s : Schema) (kept : List Nat) (mark : Nat × List ColumnRef) (x : Edge) : Prop :=
  x.source ∈ kept ∧ x.target ∉ kept ∧ markOf s x = mark

instance : DecidablePred (Refers s kept mark) :=
  fun _ => inferInstanceAs (Decidable (_ ∧ _))

-- How many edges refer to the marked columns.
def references (s : Schema) (g : QueryGraph) (kept : List Nat) (mark : Nat × List ColumnRef) : Nat :=
  g.edgeList.countP (Refers s kept mark)

-- The edge is in the sub-query.
def Survives (s : Schema) (g : QueryGraph) (kept : List Nat) (x : Edge) : Prop :=
  x.source ∈ kept ∧ (x.target ∈ kept ∨ 1 < references s g kept (markOf s x))

instance : DecidablePred (Survives s g kept) :=
  fun _ => inferInstanceAs (Decidable (_ ∧ _))

-- The edge in the sub-query, where the marked columns have nodes behind the kept ones.
def relocate (s : Schema) (kept : List Nat) (marks : List (Nat × List ColumnRef)) (x : Edge) : Edge where
  source := kept.idxOf x.source
  key := x.key
  target := if x.target ∈ kept then kept.idxOf x.target else kept.length + marks.idxOf (markOf s x)

-- What becomes of the edges, one after the other.
theorem splitEdge_foldl : (ids.foldl (splitEdge g s kept) ([], [])).1 =
      (ids.filterMap g.edge?).filter (·.target ∈ kept) ∧
    ∀ mark, referencesOf (ids.foldl (splitEdge g s kept) ([], [])).2 mark =
      ((ids.filterMap g.edge?).filter fun x => x.target ∉ kept ∧ markOf s x = mark).map fun x => (x.source, x.key) := by
  induction ids using List.reverseRecOn
  case nil => exact ⟨rfl, fun _ => rfl⟩
  case append_singleton ids e ih =>
    rw [List.foldl_concat, List.filterMap_append]
    generalize ids.foldl (splitEdge g s kept) ([], []) = acc at ih
    unfold splitEdge
    split
    case h_1 he => simpa [he] using ih
    case h_2 x he =>
      split
      case isTrue hkept =>
        rw [List.contains_iff_mem] at hkept
        simpa [he, hkept] using ih
      case isFalse hkept =>
        rw [List.contains_iff_mem] at hkept
        refine ⟨by simpa [he, hkept] using ih.1, fun mark => ?_⟩
        have hmark : (x.target, columnSet ((s.key x.key).pairs.map Prod.snd)) = markOf s x := rfl
        rw [referencesOf_share, hmark, ih.2]
        by_cases heq : markOf s x = mark
        case pos => simp [he, hkept, heq]
        case neg => simp [he, hkept, heq, Ne.symm heq]

theorem edges_extend (hsub : Kept g kept sub) : (list.foldl (extend s g kept) (sub, edges)).2 =
    edges ++ list.zipIdx.flatMap fun (h, i) => h.references.map fun r => ⟨kept.idxOf r.1, r.2, kept.length + i⟩ := by
  induction list using List.reverseRecOn
  case nil => simp
  case append_singleton list h ih =>
    have hlength := (extended_foldl (s := s) hsub list edges).length
    rw [List.foldl_concat]
    generalize list.foldl (extend s g kept) (sub, edges) = acc at ih hlength
    have hextend : (extend s g kept acc h).2 = acc.2 ++ h.references.map fun r =>
        (⟨kept.idxOf r.1, r.2, acc.1.slots.length⟩ : Edge) := rfl
    rw [hextend, ih, hlength, List.zipIdx_append]
    simp

theorem perm_filter_or {p q : Edge → Bool} (h : ∀ x, p x = true → q x = false) :
    (edges.filter p ++ edges.filter q).Perm (edges.filter fun x => p x || q x) := by
  have hsplit := List.filter_append_perm p (edges.filter fun x => p x || q x)
  have hfirst : (fun x => p x && (p x || q x)) = p := by
    funext x
    cases p x <;> rfl
  have hrest : (fun x => !p x && (p x || q x)) = q := by
    funext x
    have hx := h x
    cases hp : p x <;> simp_all
  rwa [List.filter_filter, List.filter_filter, hfirst, hrest] at hsplit

-- Edges are parted by marks.
theorem perm_flatMap_filter (hmarks : marks.Nodup) :
    (marks.flatMap fun mark => edges.filter (markOf s · = mark)).Perm (edges.filter (markOf s · ∈ marks)) := by
  induction marks
  case nil => simp
  case cons mark marks ih =>
    have ⟨hnew, hmarks⟩ := List.nodup_cons.mp hmarks
    have hsplit := (ih hmarks).append_left (edges.filter (markOf s · = mark))
    refine hsplit.trans ((perm_filter_or fun x hx => ?_).trans (.of_eq (List.filter_congr fun x _ => ?_)))
    · rw [of_decide_eq_true hx]
      simpa using hnew
    · simp

-- The graph is the sub-query over the nodes `kept`, with a virtual node for each of the marks.
structure Induces (s : Schema) (g : QueryGraph) (kept : List Nat) (marks : List (Nat × List ColumnRef))
    (f : QueryGraph) : Prop where
  wellFormed : f.WellFormed
  nodes      : f.nodes = List.range (kept.length + marks.length)
  node       : ∀ (i : Nat) n, kept[i]? = some n → f.node? i = some (g.node n) ∧ f.aliasName i = g.aliasName n
  fresh      : ∀ (i : Nat) mark, marks[i]? = some mark →
    f.node? (kept.length + i) = some (.virtual s (g.node mark.1).table)
  nodup      : marks.Nodup
  mem_marks  : ∀ mark, mark ∈ marks ↔ 1 < references s g kept mark
  edges      : f.edgeList.Perm ((g.edgeList.filter (Survives s g kept ·)).map (relocate s kept marks))

-- How the edges of a sub-query come about: first those that stay, then those to the nodes that are left out.
theorem edgeList_subquery (s : Schema) (hg : g.WellFormed) (hkept : g.keeping selected = kept) :
    (g.subquery s selected).edgeList =
      (((kept.flatMap g.outgoing).filterMap g.edge?).filter (·.target ∈ kept)).map (Edge.map kept.idxOf) ++
      (sharedBy s g kept).zipIdx.flatMap fun (h, i) =>
        h.references.map fun r => ⟨kept.idxOf r.1, r.2, kept.length + i⟩ := by
  subst hkept
  have hsub := kept_keeping hg selected
  have hstay : (((g.keeping selected).flatMap g.outgoing).foldl (splitEdge g s (g.keeping selected)) ([], [])).1 = _ :=
    splitEdge_foldl.1
  let edges := (((g.keeping selected).flatMap g.outgoing).foldl (splitEdge g s (g.keeping selected)) ([], [])).1.map
    (Edge.map (g.keeping selected).idxOf)
  let base := (g.keeping selected).foldl (fun sub n => (sub.add (g.node n) (g.aliasName n)).2) empty
  let ext := (sharedBy s g (g.keeping selected)).foldl (extend s g (g.keeping selected)) (base, edges)
  have hsubquery : g.subquery s selected = ext.1.withEdges ext.2 := rfl
  have hnone : ext.1.edges = [] := (extended_foldl hsub _ _).noEdges
  have hedges : (g.subquery s selected).edgeList = ext.2 := by
    rw [hsubquery, edgeList, edges_withEdges, hnone, List.nil_append, List.filterMap_map]
    exact List.filterMap_some
  have hext : ext.2 = edges ++ _ := edges_extend hsub
  rw [hedges, hext, ← hstay]

-- The edges to a node that is left out, and how many they are.
theorem references_sharedBy {h : Shared} (hh : h ∈ sharedBy s g kept) : h.references =
    (((kept.flatMap g.outgoing).filterMap g.edge?).filter fun x => x.target ∉ kept ∧ markOf s x = h.mark).map fun x =>
      (x.source, x.key) := by
  have hsorted : Sorted s g kept (kept.flatMap g.outgoing) _ := sorted_foldl
  rw [← references_of_mem hsorted.marks (List.mem_of_mem_filter hh), splitEdge_foldl.2]

theorem nodup_sharedBy : ((sharedBy s g kept).map Shared.mark).Nodup := by
  have hsorted : Sorted s g kept (kept.flatMap g.outgoing) _ := sorted_foldl
  exact (List.filter_sublist.map _).nodup hsorted.marks

theorem mem_sharedBy (hg : g.WellFormed) (hkept : kept.Nodup) :
    mark ∈ (sharedBy s g kept).map Shared.mark ↔ 1 < references s g kept mark := by
  have hsorted : Sorted s g kept (kept.flatMap g.outgoing) _ := sorted_foldl
  have hlength : (referencesOf ((kept.flatMap g.outgoing).foldl (splitEdge g s kept) ([], [])).2 mark).length =
      references s g kept mark := by
    rw [splitEdge_foldl.2, List.length_map, ← List.countP_eq_length_filter, (perm_leaving hg hkept).countP_eq,
      List.countP_filter]
    refine List.countP_congr fun x _ => ?_
    simp only [Bool.and_eq_true, decide_eq_true_eq]
    rw [Refers, and_comm]
  rw [← hlength]
  constructor
  · intro hmem
    obtain ⟨h, hh, rfl⟩ := List.mem_map.mp hmem
    have ⟨hh, hlong⟩ := List.mem_filter.mp hh
    rw [references_of_mem hsorted.marks hh]
    exact of_decide_eq_true hlong
  · intro hlong
    obtain ⟨r, hr⟩ := List.exists_mem_of_length_pos (Nat.zero_lt_of_lt hlong)
    obtain ⟨h, hh, rfl⟩ := exists_of_referencesOf hr
    rw [references_of_mem hsorted.marks hh] at hlong
    exact List.mem_map_of_mem (List.mem_filter.mpr ⟨hh, by simpa using hlong⟩)

-- The edges to virtual nodes are those with their marks.
theorem edges_sharedBy (hmarks : (sharedBy s g kept).map Shared.mark = marks) :
    ((sharedBy s g kept).zipIdx.flatMap fun (h, i) =>
      h.references.map fun r => (⟨kept.idxOf r.1, r.2, kept.length + i⟩ : Edge)) =
    (marks.flatMap fun mark => (((kept.flatMap g.outgoing).filterMap g.edge?).filter (·.target ∉ kept)).filter
      (markOf s · = mark)).map (relocate s kept marks) := by
  have hnodup : marks.Nodup := hmarks ▸ nodup_sharedBy
  have hzip : marks = (sharedBy s g kept).zipIdx.map fun p => p.1.mark := by
    have hfst := congrArg (List.map Shared.mark) (List.zipIdx_map_fst 0 (sharedBy s g kept))
    rw [← hmarks, ← hfst, List.map_map]
    rfl
  rw [List.map_flatMap]
  conv => rhs; arg 2; rw [hzip]
  rw [List.flatMap_map]
  refine List.flatMap_congr fun (h, i) hp => ?_
  have hget := List.mem_zipIdx_iff_getElem?.mp hp
  have hplace : marks.idxOf h.mark = i := by
    have hmark : marks[i]? = some h.mark := by rw [← hmarks, List.getElem?_map, hget, Option.map_some]
    obtain ⟨hi, heq⟩ := List.getElem?_eq_some_iff.mp hmark
    rw [← heq, hnodup.idxOf_getElem i hi]
  dsimp only
  rw [references_sharedBy (List.mem_of_getElem? hget), List.map_map, List.filter_filter]
  have hfilter : ∀ x, (decide (markOf s x = h.mark) && decide (x.target ∉ kept)) =
      decide (x.target ∉ kept ∧ markOf s x = h.mark) := fun x => by rw [Bool.decide_and, Bool.and_comm]
  rw [funext hfilter]
  refine List.map_congr_left fun x hx => ?_
  have ⟨hout, hmark⟩ : x.target ∉ kept ∧ markOf s x = h.mark := by simpa using (List.mem_filter.mp hx).2
  rw [relocate, if_neg hout, hmark, hplace]
  rfl

theorem induces_subquery (s : Schema) (hg : g.WellFormed) (selected : List Nat) :
    Induces s g (g.keeping selected) ((sharedBy s g (g.keeping selected)).map Shared.mark) (g.subquery s selected) := by
  have hselects := selects_sharedBy s hg selected
  have hkept : (g.keeping selected).Nodup := hg.nodup_nodes.filter _
  have hedges : (g.subquery s selected).edgeList = _ := edgeList_subquery s hg rfl
  generalize g.keeping selected = kept at *
  constructor
  case wellFormed => exact hselects.wellFormed
  case nodes => rw [hselects.nodes, List.length_map]
  case node => exact hselects.node
  case fresh =>
    intro i mark hmark
    rw [List.getElem?_map] at hmark
    obtain ⟨h, hh, rfl⟩ := Option.map_eq_some_iff.mp hmark
    exact hselects.fresh i h hh
  case nodup => exact nodup_sharedBy
  case mem_marks => exact fun mark => mem_sharedBy hg hkept
  case edges =>
    generalize hmarks : (sharedBy s g kept).map Shared.mark = marks
    have hnodup : marks.Nodup := hmarks ▸ nodup_sharedBy
    have hmem : ∀ mark, mark ∈ marks ↔ 1 < references s g kept mark := fun mark => hmarks ▸ mem_sharedBy hg hkept
    generalize hL : (kept.flatMap g.outgoing).filterMap g.edge? = L at hedges
    have hleaving : L.Perm (g.edgeList.filter (·.source ∈ kept)) := hL ▸ perm_leaving hg hkept
    have hstay : (L.filter (·.target ∈ kept)).map (Edge.map kept.idxOf) =
        (L.filter (·.target ∈ kept)).map (relocate s kept marks) :=
      List.map_congr_left fun x hx => by
        have hx : x.target ∈ kept := by simpa using (List.mem_filter.mp hx).2
        simp [relocate, Edge.map, hx]
    rw [hedges, hstay, edges_sharedBy hmarks, hL, ← List.map_append]
    refine List.Perm.map _ ?_
    have hparted : (marks.flatMap fun mark => (L.filter (·.target ∉ kept)).filter (markOf s · = mark)).Perm _ :=
      perm_flatMap_filter hnodup
    have hparts := hparted.append_left (L.filter (·.target ∈ kept))
    rw [List.filter_filter] at hparts
    have hdisjoint : ∀ x : Edge, decide (x.target ∈ kept) = true →
        (decide (markOf s x ∈ marks) && decide (x.target ∉ kept)) = false := fun x hx => by simp [of_decide_eq_true hx]
    refine hparts.trans ((perm_filter_or hdisjoint).trans ((hleaving.filter _).trans (.of_eq ?_)))
    rw [List.filter_filter]
    refine List.filter_congr fun x _ => ?_
    rw [Bool.eq_iff_iff]
    simp only [Bool.and_eq_true, Bool.or_eq_true, decide_eq_true_eq, hmem]
    unfold Survives
    tauto

-- The sub-query over the kept nodes, where `origin` tells which nodes of the graph its own stand for.
structure Restricts (s : Schema) (g : QueryGraph) (kept : List Nat) (origin : Nat → Nat) (f : QueryGraph) : Prop where
  wellFormed : f.WellFormed
  -- The kept nodes come first, in their order and unchanged.
  nodes      : ∃ size, f.nodes = List.range (kept.length + size)
  node       : ∀ (i : Nat) n, kept[i]? = some n →
    f.node? i = g.node? n ∧ f.aliasName i = g.aliasName n ∧ origin i = n
  -- The others are virtual, for nodes that are left out.
  added      : ∀ i ∈ f.nodes, kept.length ≤ i → g.contains (origin i) = true ∧ origin i ∉ kept ∧
    f.node? i = some (.virtual s (g.node (origin i)).table) ∧ ∀ n ∈ kept, f.aliasName i ≠ g.aliasName n
  hasEdge    : ∀ x, f.HasEdge x → g.HasEdge (x.map origin)
  forces     : ∀ p q, f.Forces s p q → g.Forces s (p.map origin) (q.map origin)
  stays      : ((f.edgeList.filter fun x => x.source < kept.length ∧ x.target < kept.length).map
    (Edge.map origin)).Perm (g.edgeList.filter fun x => x.source ∈ kept ∧ x.target ∈ kept)
  shares     : ∀ e e' x y, e ≠ e' → g.edge? e = some x → g.edge? e' = some y → x.source ∈ kept → y.source ∈ kept →
    x.target = y.target → x.target ∉ kept →
    (∀ d, d ∈ (s.key x.key).pairs.map Prod.snd ↔ d ∈ (s.key y.key).pairs.map Prod.snd) →
    ∀ c c' d, (c, d) ∈ (s.key x.key).pairs → (c', d) ∈ (s.key y.key).pairs →
      f.Forces s ⟨kept.idxOf x.source, c⟩ ⟨kept.idxOf y.source, c'⟩

-- Two edges are counted twice, even if they are equal.
theorem one_lt_countP {p : Edge → Bool} (hne : e ≠ e') (hx : g.edge? e = some x) (hy : g.edge? e' = some y)
    (hpx : p x = true) (hpy : p y = true) : 1 < g.edgeList.countP p := by
  rw [edgeList_eq, List.countP_filterMap, List.countP_eq_length_filter]
  refine one_lt_length (a := e) (b := e') ?_ ?_ hne
  · exact List.mem_filter.mpr ⟨mem_edgeIds.mpr (by simp [hx]), by simpa [hx] using hpx⟩
  · exact List.mem_filter.mpr ⟨mem_edgeIds.mpr (by simp [hy]), by simpa [hy] using hpy⟩

namespace Induces

variable (h : Induces s g kept marks f)

include h

theorem hasEdge_iff : f.HasEdge y ↔ ∃ x, g.HasEdge x ∧ Survives s g kept x ∧ relocate s kept marks x = y := by
  simp only [← mem_edgeList, h.edges.mem_iff, List.mem_map, List.mem_filter, decide_eq_true_eq, and_assoc]

-- The edges between kept nodes are those of the graph.
theorem perm_stays {origin : Nat → Nat} (horigin : ∀ n ∈ kept, origin (kept.idxOf n) = n) :
    ((f.edgeList.filter fun x => x.source < kept.length ∧ x.target < kept.length).map (Edge.map origin)).Perm
      (g.edgeList.filter fun x => x.source ∈ kept ∧ x.target ∈ kept) := by
  refine ((h.edges.filter _).map _).trans (.of_eq ?_)
  rw [List.filter_map, List.map_map, List.filter_filter]
  have hfilter : (g.edgeList.filter fun x => ((fun x : Edge => decide (x.source < kept.length ∧ x.target < kept.length)) ∘
      relocate s kept marks) x && decide (Survives s g kept x)) =
      g.edgeList.filter fun x => x.source ∈ kept ∧ x.target ∈ kept := by
    refine List.filter_congr fun x _ => ?_
    rw [Bool.eq_iff_iff]
    by_cases hx : x.target ∈ kept <;> simp [relocate, Survives, hx, List.idxOf_lt_length_iff]
  rw [hfilter]
  refine (List.map_congr_left fun x hx => ?_).trans (List.map_id _)
  have ⟨hsource, htarget⟩ : x.source ∈ kept ∧ x.target ∈ kept := by simpa using (List.mem_filter.mp hx).2
  simp [relocate, htarget, Edge.map, horigin _ hsource, horigin _ htarget]

-- Columns that refer to one column of a node that is left out stay equal.
theorem forces_shared {c c' d : ColumnRef} (hne : e ≠ e') (hx : g.edge? e = some x) (hy : g.edge? e' = some y)
    (hs : x.source ∈ kept) (hs' : y.source ∈ kept) (ht : x.target = y.target) (hout : x.target ∉ kept)
    (hreferred : referred s x = referred s y) (hc : (c, d) ∈ (s.key x.key).pairs) (hc' : (c', d) ∈ (s.key y.key).pairs) :
    f.Forces s ⟨kept.idxOf x.source, c⟩ ⟨kept.idxOf y.source, c'⟩ := by
  have hmark : markOf s y = markOf s x := by rw [markOf, markOf, ← ht, hreferred]
  have hlong : 1 < references s g kept (markOf s x) :=
    one_lt_countP hne hx hy (decide_eq_true ⟨hs, hout, rfl⟩) (decide_eq_true ⟨hs', ht ▸ hout, hmark⟩)
  have hedge := h.hasEdge_iff.mpr ⟨x, ⟨e, hx⟩, ⟨hs, .inr hlong⟩, rfl⟩
  have hedge' := h.hasEdge_iff.mpr ⟨y, ⟨e', hy⟩, ⟨hs', .inr (hmark ▸ hlong)⟩, rfl⟩
  -- Both edges lead to one virtual node.
  have hsame : (relocate s kept marks x).target = (relocate s kept marks y).target := by
    rw [relocate, relocate, if_neg hout, if_neg (ht ▸ hout), hmark]
  have hrel : f.Relates s ⟨kept.idxOf x.source, c⟩ ⟨(relocate s kept marks x).target, d⟩ := ⟨_, hedge, rfl, rfl, hc⟩
  have hrel' : f.Relates s ⟨kept.idxOf y.source, c'⟩ ⟨(relocate s kept marks x).target, d⟩ :=
    ⟨_, hedge', rfl, hsame.symm, hc'⟩
  exact .trans _ _ _ (.rel _ _ hrel) (.symm _ _ (.rel _ _ hrel'))

end Induces

-- A sub-query has the kept nodes and virtual nodes for others, and it invents no edge and forces nothing that the
-- graph does not. All edges between kept nodes are there, and columns that refer to one column of a node that is left
-- out stay equal where the other columns that are referred to are the same as well.
theorem subquery_restricts (s : Schema) (hg : g.WellFormed) (selected : List Nat) :
    ∃ origin, Restricts s g (g.keeping selected) origin (g.subquery s selected) := by
  have hselects := selects_sharedBy s hg selected
  have hinduces := induces_subquery s hg selected
  have hcontains : ∀ n ∈ g.keeping selected, g.contains n = true := fun n hn => ((mem_keeping hg.linked).mp hn).1
  generalize g.keeping selected = kept at *
  refine ⟨Selects.origin kept (sharedBy s g kept), hselects.wellFormed, ⟨_, hselects.nodes⟩, ?node, ?added,
    fun x => hselects.hasEdge_origin, fun p q => hselects.forces_origin,
    hinduces.perm_stays fun n => Selects.origin_place, ?shares⟩
  case node =>
    intro i n hn
    have ⟨hnode, halias⟩ := hselects.node i n hn
    rw [hnode, node?_eq_some_node (hcontains n (List.mem_of_getElem? hn))]
    exact ⟨rfl, halias, Selects.origin_kept hn⟩
  case added =>
    intro i hi hlt
    rw [hselects.nodes, List.mem_range] at hi
    obtain ⟨j, rfl⟩ := Nat.exists_eq_add_of_le hlt
    have hj : j < (sharedBy s g kept).length := by omega
    have hh := List.getElem?_eq_getElem hj
    have ⟨y, hy⟩ := hselects.used _ (List.mem_of_getElem? hh)
    have hnode : (sharedBy s g kept)[j].node = y.target := congrArg Prod.fst hy.mark
    rw [Selects.origin_left hh]
    refine ⟨hnode ▸ hg.contains_target hy.hasEdge, fun hin => hy.target (hnode ▸ hin), hselects.fresh j _ hh, ?_⟩
    intro n hn halias
    -- The alias of a kept node belongs to one node.
    have hplace := Selects.getElem?_place hn
    rw [← (hselects.node _ n hplace).2] at halias
    have hlt' := (List.getElem?_eq_some_iff.mp hplace).1
    have heq := hselects.wellFormed.aliasName_inj (hselects.contains_iff.mpr hi)
      (hselects.contains_iff.mpr (Nat.lt_add_right _ hlt')) halias
    omega
  case shares =>
    intro e e' x y hne hx hy hs hs' ht hout hcolumns c c' d
    exact hinduces.forces_shared hne hx hy hs hs' ht hout (referred_eq hcolumns)

theorem subquery_restricts_sameFilm : sameFilm.WellFormed ∧
    (∃ origin, Restricts filmsSchema sameFilm [0, 1] origin (sameFilm.subquery filmsSchema [0, 1])) ∧
    (sameFilm.subquery filmsSchema [0, 1]).edgeList = [⟨0, 0, 2⟩, ⟨1, 1, 2⟩] := by
  have hkept : sameFilm.keeping [0, 1] = [0, 1] := by decide +kernel
  have hrestricts := subquery_restricts filmsSchema wellFormed_sameFilm [0, 1]
  rw [hkept] at hrestricts
  exact ⟨wellFormed_sameFilm, hrestricts, by decide +kernel⟩

end Subplans.QueryGraph
