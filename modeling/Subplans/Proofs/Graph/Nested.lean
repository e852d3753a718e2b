import Subplans.Proofs.Graph.Induced

/-!
Sub-queries of sub-queries.

The sub-query of a sub-query is the sub-query over the smaller selection, up to the places of virtual nodes
(`subquery_subquery`): an edge survives both times just if it survives at once, as a virtual node is referred to by the
same edges as the node that it stands for.
-/

namespace Subplans.QueryGraph

variable {s : Schema} {g f f' : QueryGraph} {kept outer inner : List Nat} {n m i : Nat} {x y : Edge}
  {mark mark' : Nat × List ColumnRef} {marks marks' : List (Nat × List ColumnRef)}

theorem map_idxOf_self {α : Type} [BEq α] [LawfulBEq α] {l : List α} (hl : l.Nodup) :
    l.map l.idxOf = List.range l.length := by
  refine List.ext_getElem (by simp) fun i hi _ => ?_
  simp [hl.idxOf_getElem]

theorem mem_places (hsub : ∀ n ∈ inner, n ∈ outer) : outer.idxOf n ∈ inner.map outer.idxOf ↔ n ∈ inner := by
  rw [List.mem_map]
  constructor
  · rintro ⟨m, hm, heq⟩
    exact (List.idxOf_inj (hsub m hm)).mp heq ▸ hm
  · exact fun hn => ⟨n, hn, rfl⟩

-- The nodes of the smaller selection, by their places in the sub-query over the larger one.
theorem keeping_places (h : Induces s g (g.keeping outer) marks f) (hsub : ∀ n ∈ inner, n ∈ outer)
    (hin : ∀ n ∈ outer, n ∈ g.nodes) (hnodup : g.nodes.Nodup) :
    f.keeping (inner.map (g.keeping outer).idxOf) = (g.keeping inner).map (g.keeping outer).idxOf := by
  have hmem : ∀ n ∈ inner, n ∈ g.keeping outer := fun n hn =>
    List.mem_filter.mpr ⟨hin n (hsub n hn), by simpa using hsub n hn⟩
  have hinner : g.keeping inner = (g.keeping outer).filter inner.contains := by
    rw [keeping, keeping, List.filter_filter]
    refine List.filter_congr fun n _ => ?_
    rw [Bool.eq_iff_iff, Bool.and_eq_true, List.contains_iff_mem, List.contains_iff_mem]
    exact ⟨fun hn => ⟨hn, hsub n hn⟩, And.left⟩
  have hkept : (g.keeping outer).Nodup := hnodup.filter _
  rw [hinner]
  generalize g.keeping outer = kept at *
  rw [keeping, h.nodes, List.range_add, List.filter_append, ← map_idxOf_self hkept, List.filter_map]
  have hrest : ((List.range marks.length).map (kept.length + ·)).filter (inner.map kept.idxOf).contains = [] := by
    refine List.filter_eq_nil_iff.mpr fun i hi => ?_
    obtain ⟨j, _, rfl⟩ := List.mem_map.mp hi
    simp only [List.contains_iff_mem, List.mem_map, not_exists, not_and]
    intro n hn
    have hlt := List.idxOf_lt_length_iff.mpr (hmem n hn)
    omega
  rw [hrest, List.append_nil]
  refine congrArg (List.map _) (List.filter_congr fun n hn => ?_)
  rw [Bool.eq_iff_iff, Function.comp, List.contains_iff_mem, List.contains_iff_mem, mem_places hmem]

-- Where the marked columns are found in the sub-query.
def carry (kept : List Nat) (marks : List (Nat × List ColumnRef)) (mark : Nat × List ColumnRef) :
    Nat × List ColumnRef :=
  (if mark.1 ∈ kept then kept.idxOf mark.1 else kept.length + marks.idxOf mark, mark.2)

theorem markOf_relocate : markOf s (relocate s kept marks x) = carry kept marks (markOf s x) := rfl

theorem carry_inj (h : mark.1 ∈ kept ∨ mark ∈ marks)
    (heq : carry kept marks mark = carry kept marks mark') : mark = mark' := by
  have hplace : ∀ {n}, n ∈ kept → kept.idxOf n < kept.length := fun hin => List.idxOf_lt_length_iff.mpr hin
  have hfirst := congrArg Prod.fst heq
  have hsecond : mark.2 = mark'.2 := (congrArg Prod.snd heq :)
  dsimp only [carry] at hfirst
  split at hfirst <;> split at hfirst
  case isTrue.isTrue hin hin' => exact Prod.ext ((List.idxOf_inj hin).mp hfirst) hsecond
  case isTrue.isFalse hin _ =>
    have hlt := hplace hin
    omega
  case isFalse.isTrue hin =>
    have hlt := hplace hin
    omega
  case isFalse.isFalse hout _ => exact (List.idxOf_inj (h.resolve_left hout)).mp (Nat.add_left_cancel hfirst)

section Nested

variable {marks₁ : List (Nat × List ColumnRef)} {f₁ : QueryGraph}

theorem Survives.carried (h : Survives s g outer x) (h₁ : Induces s g outer marks₁ f₁) :
    (markOf s x).1 ∈ outer ∨ markOf s x ∈ marks₁ :=
  h.2.imp_right (h₁.mem_marks _).mpr

-- The marked columns keep their table.
theorem table_carry (h₁ : Induces s g outer marks₁ f₁) (hmark : mark.1 ∈ outer ∨ mark ∈ marks₁) :
    (f₁.node (carry outer marks₁ mark).1).table = (g.node mark.1).table := by
  by_cases hin : mark.1 ∈ outer
  case pos =>
    have hnode := (h₁.node _ _ (List.getElem?_idxOf hin)).1
    rw [carry, if_pos hin, node, hnode, Option.getD_some]
  case neg =>
    have hnode := h₁.fresh _ _ (List.getElem?_idxOf (hmark.resolve_left hin))
    rw [carry, if_neg hin, node, hnode, Option.getD_some]
    rfl

theorem exists_refers (h : Induces s g inner marks f) (hmark : mark ∈ marks) :
    ∃ x, g.HasEdge x ∧ Survives s g inner x ∧ x.target ∉ inner ∧ markOf s x = mark := by
  have hlong := (h.mem_marks mark).mp hmark
  obtain ⟨x, hx, hrefers⟩ := List.countP_pos_iff.mp (Nat.zero_lt_of_lt hlong)
  obtain ⟨hs, ht, rfl⟩ := of_decide_eq_true hrefers
  exact ⟨x, mem_edgeList.mp hx, ⟨hs, .inr hlong⟩, ht, rfl⟩

section Smaller

variable (hsub : ∀ n ∈ inner, n ∈ outer)

include hsub

theorem target_mem_places : (relocate s outer marks₁ x).target ∈ inner.map outer.idxOf ↔ x.target ∈ inner := by
  rw [relocate]
  split
  case isTrue hin => exact mem_places hsub
  case isFalse hout =>
    refine iff_of_false (fun hmem => ?_) (fun hin => hout (hsub _ hin))
    obtain ⟨m, hm, heq⟩ := List.mem_map.mp hmem
    have hlt := List.idxOf_lt_length_iff.mpr (hsub m hm)
    dsimp only at heq
    omega

-- What survives in the smaller selection survives in the larger one.
theorem Survives.mono (h : Survives s g inner x) : Survives s g outer x := by
  refine ⟨hsub _ h.1, ?_⟩
  by_cases hin : x.target ∈ outer
  case pos => exact .inl hin
  case neg =>
    have hlong := h.2.resolve_left fun h => hin (hsub _ h)
    refine .inr (Nat.lt_of_lt_of_le hlong (List.countP_mono_left fun y _ hy => ?_))
    have ⟨hs, _, hmark⟩ := of_decide_eq_true hy
    have htarget : y.target = x.target := congrArg Prod.fst hmark
    exact decide_eq_true ⟨hsub _ hs, htarget ▸ hin, hmark⟩

variable (h₁ : Induces s g outer marks₁ f₁)

include h₁

-- As many edges refer to a node of the sub-query as to the node that it stands for.
theorem references_carry (hmark : mark.1 ∈ outer ∨ mark ∈ marks₁) (hout : mark.1 ∉ inner) :
    references s f₁ (inner.map outer.idxOf) (carry outer marks₁ mark) = references s g inner mark := by
  rw [references, h₁.edges.countP_eq, List.countP_map, List.countP_filter]
  refine List.countP_congr fun x _ => ?_
  simp only [Function.comp, Bool.and_eq_true, decide_eq_true_eq]
  constructor
  · rintro ⟨⟨hs, _, heq⟩, hx⟩
    have heq : markOf s x = mark := carry_inj (hx.carried h₁) heq
    have htarget : x.target = mark.1 := congrArg Prod.fst heq
    exact ⟨(mem_places hsub).mp hs, htarget ▸ hout, heq⟩
  · rintro ⟨hs, ht, rfl⟩
    have hx : Survives s g outer x := ⟨hsub _ hs, hmark.imp_right (h₁.mem_marks _).mp⟩
    exact ⟨⟨(mem_places hsub).mpr hs, mt (target_mem_places hsub).mp ht, rfl⟩, hx⟩

-- An edge survives both times just if it survives at once.
theorem survives_relocate (hx : Survives s g outer x) :
    Survives s f₁ (inner.map outer.idxOf) (relocate s outer marks₁ x) ↔ Survives s g inner x := by
  refine and_congr (mem_places hsub) ?_
  rw [target_mem_places hsub]
  by_cases hin : x.target ∈ inner
  case pos => simp [hin]
  case neg => rw [markOf_relocate, references_carry hsub h₁ (hx.carried h₁) hin]

variable (h : Induces s g inner marks f)

include h

theorem carried_of_mem (hmark : mark ∈ marks) : (mark.1 ∈ outer ∨ mark ∈ marks₁) ∧ mark.1 ∉ inner := by
  obtain ⟨x, -, hx, ht, rfl⟩ := exists_refers h hmark
  exact ⟨(hx.mono hsub).carried h₁, ht⟩

variable (h₂ : Induces s f₁ (inner.map outer.idxOf) marks' f')

include h₂

-- The nested sub-query has virtual nodes for the same marks.
theorem perm_marks : (marks.map (carry outer marks₁)).Perm marks' := by
  have hnodup : (marks.map (carry outer marks₁)).Nodup :=
    List.Nodup.map_on (fun a ha _ _ => carry_inj (carried_of_mem hsub h₁ h ha).1) h.nodup
  refine (List.perm_ext_iff_of_nodup hnodup h₂.nodup).mpr fun mark' => ?_
  rw [List.mem_map, h₂.mem_marks]
  constructor
  · rintro ⟨mark, hmark, rfl⟩
    have ⟨hcarried, hout⟩ := carried_of_mem hsub h₁ h hmark
    rw [references_carry hsub h₁ hcarried hout]
    exact (h.mem_marks mark).mp hmark
  · intro hlong
    obtain ⟨y, hy, -, ht, rfl⟩ := exists_refers h₂ ((h₂.mem_marks mark').mpr hlong)
    obtain ⟨x, -, hx, rfl⟩ := h₁.hasEdge_iff.mp hy
    have hout := mt (target_mem_places hsub).mpr ht
    rw [markOf_relocate, references_carry hsub h₁ (hx.carried h₁) hout] at hlong
    exact ⟨markOf s x, (h.mem_marks _).mpr hlong, rfl⟩

end Smaller

-- The place of a node of the sub-query in the nested one.
def nestedPlace (inner outer : List Nat) (marks₁ marks marks' : List (Nat × List ColumnRef)) (i : Nat) : Nat :=
  if i < inner.length then i
  else inner.length + marks'.idxOf (carry outer marks₁ (marks.getD (i - inner.length) (0, [])))

theorem nestedPlace_kept (hi : i < inner.length) : nestedPlace inner outer marks₁ marks marks' i = i := by
  rw [nestedPlace, if_pos hi]

theorem nestedPlace_mark (hi : marks[i]? = some mark) :
    nestedPlace inner outer marks₁ marks marks' (inner.length + i) =
      inner.length + marks'.idxOf (carry outer marks₁ mark) := by
  simp [nestedPlace, hi]

theorem idxOf_places (hsub : ∀ n ∈ inner, n ∈ outer) (hn : n ∈ inner) (hnodup : inner.Nodup) :
    (inner.map outer.idxOf).idxOf (outer.idxOf n) = inner.idxOf n := by
  have hplaces : (inner.map outer.idxOf).Nodup :=
    List.Nodup.map_on (fun a ha _ _ heq => (List.idxOf_inj (hsub a ha)).mp heq) hnodup
  have hlt : inner.idxOf n < (inner.map outer.idxOf).length := by simpa using List.idxOf_lt_length_iff.mpr hn
  have hget : (inner.map outer.idxOf)[inner.idxOf n] = outer.idxOf n := by simp
  rw [← hget, hplaces.idxOf_getElem]

-- An edge of the nested sub-query is one of the sub-query with its ends in their places.
theorem relocate_relocate (hsub : ∀ n ∈ inner, n ∈ outer) (hnodup : inner.Nodup) (h : Induces s g inner marks f)
    (hx : Survives s g inner x) :
    relocate s (inner.map outer.idxOf) marks' (relocate s outer marks₁ x) =
      (relocate s inner marks x).map (nestedPlace inner outer marks₁ marks marks') := by
  have hsource : nestedPlace inner outer marks₁ marks marks' (inner.idxOf x.source) = inner.idxOf x.source :=
    nestedPlace_kept (List.idxOf_lt_length_iff.mpr hx.1)
  by_cases hin : x.target ∈ inner
  case pos =>
    have htarget : nestedPlace inner outer marks₁ marks marks' (inner.idxOf x.target) = inner.idxOf x.target :=
      nestedPlace_kept (List.idxOf_lt_length_iff.mpr hin)
    simp [relocate, Edge.map, hin, hsub _ hin, mem_places hsub, idxOf_places hsub hx.1 hnodup,
      idxOf_places hsub hin hnodup, hsource, htarget]
  case neg =>
    have hmark := (h.mem_marks _).mpr (hx.2.resolve_left hin)
    have hget := List.getElem?_idxOf hmark
    rw [relocate, if_neg (mt (target_mem_places hsub).mp hin), markOf_relocate, List.length_map]
    simp only [relocate, Edge.map, if_neg hin, idxOf_places hsub hx.1 hnodup, hsource, nestedPlace_mark hget]

-- Both graphs have the kept nodes first, in their order and unchanged. Behind them there are virtual nodes, which with
-- the edges are the same up to their places and aliases.
structure Alike (g : QueryGraph) (kept : List Nat) (f f' : QueryGraph) (σ : Nat → Nat) : Prop where
  same  : ∀ (i : Nat) n, kept[i]? = some n → σ i = i ∧
    (f.node? i = some (g.node n) ∧ f.aliasName i = g.aliasName n) ∧
    f'.node? i = some (g.node n) ∧ f'.aliasName i = g.aliasName n
  added : ∀ n ∈ f.nodes, kept.length ≤ n → f.isVirtual n = true
  nodes : (f.nodes.map σ).Perm f'.nodes
  node  : ∀ n ∈ f.nodes, f'.node? (σ n) = f.node? n
  edges : (f.edgeList.map (Edge.map σ)).Perm f'.edgeList

variable (hsub : ∀ n ∈ inner, n ∈ outer) (h₁ : Induces s g outer marks₁ f₁) (h : Induces s g inner marks f)
  (h₂ : Induces s f₁ (inner.map outer.idxOf) marks' f')

include hsub h₁ h₂

theorem same_nested (hn : inner[i]? = some n) : f'.node? i = some (g.node n) ∧ f'.aliasName i = g.aliasName n := by
  have ⟨hnode, halias⟩ := h₂.node i (outer.idxOf n) (by rw [List.getElem?_map, hn, Option.map_some])
  have ⟨hnode₁, halias₁⟩ := h₁.node _ _ (List.getElem?_idxOf (hsub _ (List.mem_of_getElem? hn)))
  rw [hnode, halias, halias₁, node, hnode₁]
  exact ⟨rfl, rfl⟩

include h

theorem perm_nodes_nested : (f.nodes.map (nestedPlace inner outer marks₁ marks marks')).Perm f'.nodes := by
  have hfirst : (List.range inner.length).map (nestedPlace inner outer marks₁ marks marks') = List.range inner.length :=
    (List.map_congr_left fun i hi => nestedPlace_kept (List.mem_range.mp hi)).trans (List.map_id _)
  have hrest : ((List.range marks.length).map (inner.length + ·)).map (nestedPlace inner outer marks₁ marks marks') =
      ((marks.map (carry outer marks₁)).map marks'.idxOf).map (inner.length + ·) := by
    refine List.ext_getElem (by simp) fun i hi _ => ?_
    have hi : i < marks.length := by simpa using hi
    simp [nestedPlace_mark (List.getElem?_eq_getElem hi)]
  rw [h.nodes, h₂.nodes, List.range_add, List.range_add, List.map_append, hfirst, hrest, List.length_map,
    ← map_idxOf_self h₂.nodup]
  exact (((perm_marks hsub h₁ h h₂).map _).map _).append_left _

theorem node_nested (hn : n ∈ f.nodes) :
    f'.node? (nestedPlace inner outer marks₁ marks marks' n) = f.node? n := by
  rw [h.nodes, List.mem_range] at hn
  by_cases hlt : n < inner.length
  case pos =>
    have hget : inner[n]? = some inner[n] := List.getElem?_eq_getElem hlt
    rw [nestedPlace_kept hlt, (same_nested hsub h₁ h₂ hget).1, (h.node n _ hget).1]
  case neg =>
    obtain ⟨i, rfl⟩ := Nat.exists_eq_add_of_le (Nat.le_of_not_lt hlt)
    have hi : i < marks.length := by omega
    have hget := List.getElem?_eq_getElem hi
    have hmem : carry outer marks₁ marks[i] ∈ marks' :=
      (perm_marks hsub h₁ h h₂).subset (List.mem_map_of_mem (List.getElem_mem hi))
    have hfresh := h₂.fresh _ _ (List.getElem?_idxOf hmem)
    rw [List.length_map] at hfresh
    have ⟨hcarried, _⟩ := carried_of_mem hsub h₁ h (List.getElem_mem hi)
    rw [nestedPlace_mark hget, hfresh, h.fresh i _ hget, table_carry h₁ hcarried]

theorem perm_edges_nested (hnodup : inner.Nodup) :
    (f.edgeList.map (Edge.map (nestedPlace inner outer marks₁ marks marks'))).Perm f'.edgeList := by
  have hnested := h₂.edges.trans ((h₁.edges.filter _).map _)
  refine (h.edges.map _).trans (.trans (.of_eq ?_) hnested.symm)
  rw [List.filter_map, List.map_map, List.map_map, List.filter_filter]
  have hfilter : (g.edgeList.filter fun x => ((fun x => decide (Survives s f₁ (inner.map outer.idxOf) x)) ∘
      relocate s outer marks₁) x && decide (Survives s g outer x)) = g.edgeList.filter (Survives s g inner ·) := by
    refine List.filter_congr fun x _ => ?_
    rw [Bool.eq_iff_iff, Bool.and_eq_true, Function.comp, decide_eq_true_eq, decide_eq_true_eq, decide_eq_true_eq]
    exact ⟨fun hx => (survives_relocate hsub h₁ hx.2).mp hx.1,
      fun hx => ⟨(survives_relocate hsub h₁ (hx.mono hsub)).mpr hx, hx.mono hsub⟩⟩
  rw [hfilter]
  refine List.map_congr_left fun x hx => ?_
  have hx : Survives s g inner x := by simpa using (List.mem_filter.mp hx).2
  exact (relocate_relocate hsub hnodup h hx).symm

theorem alike_nested (hnodup : inner.Nodup) : Alike g inner f f' (nestedPlace inner outer marks₁ marks marks') where
  same i n hn := ⟨nestedPlace_kept (List.getElem?_eq_some_iff.mp hn).1, h.node i n hn, same_nested hsub h₁ h₂ hn⟩
  added n hn hlt := by
    rw [h.nodes, List.mem_range] at hn
    obtain ⟨i, rfl⟩ := Nat.exists_eq_add_of_le hlt
    have hi : i < marks.length := by omega
    rw [isVirtual, h.fresh i _ (List.getElem?_eq_getElem hi)]
    rfl
  nodes := perm_nodes_nested hsub h₁ h h₂
  node _ := node_nested hsub h₁ h h₂
  edges := perm_edges_nested hsub h₁ h h₂ hnodup

end Nested

-- To take a sub-query and another one of it is to take one at once.
theorem subquery_subquery (s : Schema) (hg : g.WellFormed) (hin : ∀ n ∈ outer, n ∈ g.nodes)
    (hsub : ∀ n ∈ inner, n ∈ outer) : ∃ σ, Alike g (g.keeping inner) (g.subquery s inner)
      ((g.subquery s outer).subquery s (inner.map (g.keeping outer).idxOf)) σ := by
  have h₁ := induces_subquery s hg outer
  have h₂ := induces_subquery s h₁.wellFormed (inner.map (g.keeping outer).idxOf)
  rw [keeping_places h₁ hsub hin hg.nodup_nodes] at h₂
  have hkept : ∀ n ∈ g.keeping inner, n ∈ g.keeping outer := by
    simp only [mem_keeping hg.linked]
    exact fun n hn => ⟨hn.1, hsub n hn.2⟩
  exact ⟨_, alike_nested hkept h₁ (induces_subquery s hg inner) h₂ (hg.nodup_nodes.filter _)⟩

-- A link and two information about the same film.
def twiceSameFilm : QueryGraph :=
  merge filmsSchema sameFilm (alone 2 "mj") [throughFilm]

-- The virtual film stands for the one of the intermediate sub-query, which is virtual as well.
theorem subquery_subquery_twiceSameFilm : twiceSameFilm.WellFormed ∧ (∀ n ∈ [0, 1, 3], n ∈ twiceSameFilm.nodes) ∧
    (∀ n ∈ [0, 3], n ∈ [0, 1, 3]) ∧
    (∃ σ, Alike twiceSameFilm [0, 3] (twiceSameFilm.subquery filmsSchema [0, 3])
      ((twiceSameFilm.subquery filmsSchema [0, 1, 3]).subquery filmsSchema [0, 2]) σ) ∧
    (twiceSameFilm.subquery filmsSchema [0, 3]).edgeList = [⟨0, 0, 2⟩, ⟨1, 1, 2⟩] := by
  have hd : Schema.ofDescription films = .ok filmsSchema := rfl
  have hbuilt : Built filmsSchema twiceSameFilm :=
    .merge built_sameFilm built_alone (by simpa using resolved_throughFilm.2 "mj" (by simp))
  have hg : twiceSameFilm.WellFormed :=
    (hbuilt.tidy (Schema.loaded_of_ofDescription hd) (by decide +kernel)).wellFormed
  have hin : ∀ n ∈ [0, 1, 3], n ∈ twiceSameFilm.nodes := by decide +kernel
  have hsub : ∀ n ∈ [0, 3], n ∈ [0, 1, 3] := by decide
  have halike := subquery_subquery filmsSchema hg hin hsub
  have hkept : twiceSameFilm.keeping [0, 3] = [0, 3] ∧
      [0, 3].map (twiceSameFilm.keeping [0, 1, 3]).idxOf = [0, 2] := by decide +kernel
  rw [hkept.1, hkept.2] at halike
  exact ⟨hg, hin, hsub, halike, by decide +kernel⟩

end Subplans.QueryGraph
