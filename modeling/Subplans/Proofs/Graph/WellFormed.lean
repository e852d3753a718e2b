import Mathlib.Data.List.Nodup
import Mathlib.Data.List.Perm.Subperm
import Mathlib.Tactic.ByContra
import Subplans.Proofs.Graph.Wired

/-!
Query graphs stay well-formed: every change keeps the lists of nodes and edges and the index of aliases in
step with each other.
-/

namespace Subplans.QueryGraph

variable {g g' : QueryGraph} {m n source key target e e' old new : Nat} {o : Occurrence} {x : Edge} {a b : String}

-- The part that is about nodes: those that are there are listed, and their aliases are in the index.
structure Indexed (g : QueryGraph) : Prop where
  mem_nodes        : ∀ n, n ∈ g.nodes ↔ g.contains n = true
  nodup_nodes      : g.nodes.Nodup
  byAlias          : ∀ a n, g.byAlias? a = some n ↔ g.contains n = true ∧ g.aliasName n = a
  nodup_aliasIndex : (g.aliasIndex.map Prod.fst).Nodup

-- Two nodes that are there have different aliases.
theorem Indexed.aliasName_inj (hg : g.Indexed) (hm : g.contains m = true) (hn : g.contains n = true)
    (h : g.aliasName m = g.aliasName n) : m = n := by
  have hbm := (hg.byAlias _ m).mpr ⟨hm, rfl⟩
  have hbn := (hg.byAlias _ n).mpr ⟨hn, rfl⟩
  rw [h, hbn] at hbm
  exact (Option.some.inj hbm).symm

theorem Indexed.of_sameNodes (hg : g.Indexed) (h : SameNodes g g') : g'.Indexed where
  mem_nodes n := by rw [h.nodes, h.contains, hg.mem_nodes]
  nodup_nodes := h.nodes ▸ hg.nodup_nodes
  byAlias a n := by rw [byAlias?, h.aliasIndex, h.contains, h.aliasName]; exact hg.byAlias a n
  nodup_aliasIndex := h.aliasIndex ▸ hg.nodup_aliasIndex

namespace WellFormed

theorem indexed (hg : g.WellFormed) : g.Indexed :=
  ⟨hg.mem_nodes, hg.nodup_nodes, hg.byAlias, hg.nodup_aliasIndex⟩

theorem wired (hg : g.WellFormed) : g.Wired where
  source_lt e x he := lt_of_contains (hg.source_mem e x he).1
  target_lt e x he := lt_of_contains (hg.source_mem e x he).2
  mem_outgoing n e := by
    rw [← List.count_pos_iff, hg.count_outgoing]
    cases h : g.edge? e
    case none => simp
    case some x => by_cases hx : x.source = n <;> simp [hx]
  mem_incoming n e := by
    rw [← List.count_pos_iff, hg.count_incoming]
    cases h : g.edge? e
    case none => simp
    case some x => by_cases hx : x.target = n <;> simp [hx]

theorem contains_source (hg : g.WellFormed) (hx : g.HasEdge x) : g.contains x.source = true :=
  have ⟨_, he⟩ := hx
  (hg.source_mem _ _ he).1

theorem contains_target (hg : g.WellFormed) (hx : g.HasEdge x) : g.contains x.target = true :=
  have ⟨_, he⟩ := hx
  (hg.source_mem _ _ he).2

theorem aliasName_inj (hg : g.WellFormed) (hm : g.contains m) (hn : g.contains n)
    (h : g.aliasName m = g.aliasName n) : m = n :=
  hg.indexed.aliasName_inj hm hn h

protected theorem empty : WellFormed empty where
  mem_nodes _ := by simp [empty, contains, node?, slot?]
  nodup_nodes := List.nodup_nil
  source_mem _ _ h := by simp [empty, edge?] at h
  count_outgoing _ _ := by simp [empty, edge?, outgoing, slot?]
  count_incoming _ _ := by simp [empty, edge?, incoming, slot?]
  byAlias _ _ := by simp [empty, byAlias?, contains, node?, slot?]
  nodup_aliasIndex := List.nodup_nil

theorem not_contains_length : g.contains g.slots.length = false := by
  simp [contains, node?_length]

theorem nodup_indexAlias {index : List (String × Nat)} (h : (index.map Prod.fst).Nodup) :
    ((indexAlias a n index).map Prod.fst).Nodup := by
  rw [indexAlias, List.map_cons, List.nodup_cons]
  refine ⟨?_, (List.filter_sublist.map _).nodup h⟩
  simp

theorem contains_add : (g.add o a).2.contains n = (n == g.slots.length || g.contains n) := by
  by_cases hn : n = g.slots.length <;> simp [contains, node?_add, hn]

end WellFormed

protected theorem Indexed.add (hg : g.Indexed) (ha : g.byAlias? a = none) : (g.add o a).2.Indexed where
  mem_nodes n := by
    have hnodes : (g.add o a).2.nodes = g.nodes ++ [g.slots.length] := rfl
    simp [hnodes, hg.mem_nodes, WellFormed.contains_add, or_comm]
  nodup_nodes := by
    have hnodes : (g.add o a).2.nodes = g.nodes ++ [g.slots.length] := rfl
    have hnew : g.slots.length ∉ g.nodes := by simp [hg.mem_nodes, WellFormed.not_contains_length]
    rw [hnodes]
    exact List.nodup_append.mpr ⟨hg.nodup_nodes, List.nodup_singleton _, by grind⟩
  byAlias b n := by
    rw [byAlias?_add, WellFormed.contains_add, aliasName_add]
    by_cases hb : b = a
    case pos =>
      subst hb
      by_cases hn : n = g.slots.length
      case pos => simp [hn]
      case neg =>
        have hfree : ¬(g.contains n = true ∧ g.aliasName n = b) := by
          rw [← hg.byAlias, ha]
          exact nofun
        simp [hn, Ne.symm hn]
        exact fun hc hb => hfree ⟨hc, hb⟩
    case neg =>
      by_cases hn : n = g.slots.length
      case pos =>
        have hnone : g.byAlias? b ≠ some g.slots.length := by
          rw [Ne, hg.byAlias, WellFormed.not_contains_length]
          exact nofun
        simpa [hb, hn, Ne.symm hb] using hnone
      case neg => simpa [hb, hn] using hg.byAlias b n
  nodup_aliasIndex := WellFormed.nodup_indexAlias hg.nodup_aliasIndex

namespace WellFormed

protected theorem add (hg : g.WellFormed) (ha : g.byAlias? a = none) : (g.add o a).2.WellFormed where
  mem_nodes := (hg.indexed.add ha).mem_nodes
  nodup_nodes := (hg.indexed.add ha).nodup_nodes
  source_mem e x he := by
    have ⟨hs, ht⟩ := hg.source_mem e x (edge?_add ▸ he)
    simp [contains_add, hs, ht]
  count_outgoing n e := by rw [outgoing_add, edge?_add, hg.count_outgoing]
  count_incoming n e := by rw [incoming_add, edge?_add, hg.count_incoming]
  byAlias := (hg.indexed.add ha).byAlias
  nodup_aliasIndex := (hg.indexed.add ha).nodup_aliasIndex

end WellFormed

theorem numbered_inj {j k : Nat} (h : numbered j = numbered k) : j = k := by
  have hdigits : Nat.toDigits 10 j = Nat.toDigits 10 k := by
    have := congrArg String.toList (String.append_right_inj _ |>.mp h)
    simpa [toString, Nat.toList_repr] using this
  calc
    j = Nat.ofDigitChars 10 (Nat.toDigits 10 j) 0 := Nat.ofDigitChars_ten_toDigits.symm
    _ = Nat.ofDigitChars 10 (Nat.toDigits 10 k) 0 := by rw [hdigits]
    _ = k := Nat.ofDigitChars_ten_toDigits

-- The index has fewer entries than there are numbers tried, so it lacks one of their aliases.
theorem byAlias?_nextAlias : g.byAlias? (numbered g.nextAlias) = none := by
  unfold nextAlias
  cases h : (List.range' (g.lastAlias + 1) (g.aliasIndex.length + 1)).find? fun k =>
    (g.byAlias? (numbered k)).isNone
  case some k => simpa using List.find?_some h
  case none =>
    have htaken : ∀ k ∈ List.range' (g.lastAlias + 1) (g.aliasIndex.length + 1),
        numbered k ∈ g.aliasIndex.map Prod.fst := by
      intro k hk
      have hsome := List.find?_eq_none.mp h k hk
      by_contra hnot
      refine hsome ?_
      rw [Option.isNone_iff_eq_none, byAlias?, List.lookup_eq_none_iff]
      intro entry hentry
      have hne : numbered k ≠ entry.1 := fun h => hnot (h ▸ List.mem_map_of_mem hentry)
      exact bne_iff_ne.mpr hne
    have hnodup : ((List.range' (g.lastAlias + 1) (g.aliasIndex.length + 1)).map numbered).Nodup :=
      List.Nodup.map (fun _ _ => numbered_inj) List.nodup_range'
    have hsub : (List.range' (g.lastAlias + 1) (g.aliasIndex.length + 1)).map numbered ⊆
        g.aliasIndex.map Prod.fst := by
      intro s hs
      have ⟨k, hk, hks⟩ := List.mem_map.mp hs
      exact hks ▸ htaken k hk
    have hlen := (List.subperm_of_subset hnodup hsub).length_le
    rw [List.length_map, List.length_map, List.length_range'] at hlen
    omega

theorem node?_addFresh : (g.addFresh o).2.node? n = if n = g.slots.length then some o else g.node? n :=
  node?_add

theorem contains_addFresh : (g.addFresh o).2.contains n = (n == g.slots.length || g.contains n) :=
  WellFormed.contains_add

theorem aliasName_addFresh :
    (g.addFresh o).2.aliasName n = if n = g.slots.length then numbered g.nextAlias else g.aliasName n :=
  aliasName_add

theorem byAlias?_addFresh :
    (g.addFresh o).2.byAlias? b = if b = numbered g.nextAlias then some g.slots.length else g.byAlias? b :=
  byAlias?_add

theorem Indexed.withLast (hg : g.Indexed) (k : Nat) : ({ g with lastAlias := k } : QueryGraph).Indexed :=
  ⟨hg.mem_nodes, hg.nodup_nodes, hg.byAlias, hg.nodup_aliasIndex⟩

protected theorem Indexed.addFresh (hg : g.Indexed) : (g.addFresh o).2.Indexed :=
  (hg.withLast g.nextAlias).add byAlias?_nextAlias

namespace WellFormed

theorem withLast (hg : g.WellFormed) (k : Nat) : ({ g with lastAlias := k } : QueryGraph).WellFormed :=
  ⟨hg.mem_nodes, hg.nodup_nodes, hg.source_mem, hg.count_outgoing, hg.count_incoming, hg.byAlias,
    hg.nodup_aliasIndex⟩

protected theorem addFresh (hg : g.WellFormed) : (g.addFresh o).2.WellFormed :=
  (hg.withLast g.nextAlias).add byAlias?_nextAlias

-- What is to be shown of a graph that differs in its edges.
theorem of_sameNodes (hg : g.WellFormed) (h : SameNodes g g')
    (hends : ∀ e x, g'.edge? e = some x → g.contains x.source ∧ g.contains x.target)
    (hout : ∀ n e, (g'.outgoing n).count e = if (g'.edge? e).any (·.source == n) then 1 else 0)
    (hin : ∀ n e, (g'.incoming n).count e = if (g'.edge? e).any (·.target == n) then 1 else 0) :
    g'.WellFormed where
  mem_nodes := (hg.indexed.of_sameNodes h).mem_nodes
  nodup_nodes := (hg.indexed.of_sameNodes h).nodup_nodes
  source_mem e x he := by rw [h.contains, h.contains]; exact hends e x he
  count_outgoing := hout
  count_incoming := hin
  byAlias := (hg.indexed.of_sameNodes h).byAlias
  nodup_aliasIndex := (hg.indexed.of_sameNodes h).nodup_aliasIndex

protected theorem addEdge (hg : g.WellFormed) (hs : g.contains source = true) (ht : g.contains target = true) :
    (g.addEdge source key target).2.WellFormed := by
  apply hg.of_sameNodes sameNodes_addEdge
  case hends =>
    intro e x he
    rw [edge?_addEdge] at he
    split at he
    case isTrue =>
      cases he
      exact ⟨hs, ht⟩
    case isFalse => exact hg.source_mem e x he
  case hout =>
    intro n e
    rw [outgoing_addEdge (lt_of_contains hs), edge?_addEdge, List.count_append, hg.count_outgoing]
    by_cases he : e = g.edges.length
    case pos => by_cases hn : source = n <;> simp [he, hn, edge?_length]
    case neg => by_cases hn : source = n <;> simp [he, hn, Ne.symm he]
  case hin =>
    intro n e
    rw [incoming_addEdge (lt_of_contains ht), edge?_addEdge, List.count_append, hg.count_incoming]
    by_cases he : e = g.edges.length
    case pos => by_cases hn : target = n <;> simp [he, hn, edge?_length]
    case neg => by_cases hn : target = n <;> simp [he, hn, Ne.symm he]

protected theorem removeEdge (hg : g.WellFormed) : (g.removeEdge e).WellFormed := by
  cases h : g.edge? e
  case none =>
    rw [removeEdge_of_none h]
    exact hg
  case some x =>
    apply hg.of_sameNodes sameNodes_removeEdge
    case hends =>
      intro e' y hy
      rw [edge?_removeEdge] at hy
      split at hy
      case isTrue => cases hy
      case isFalse => exact hg.source_mem e' y hy
    case hout =>
      intro n e'
      rw [outgoing_removeEdge h, edge?_removeEdge]
      have hcount := hg.count_outgoing n e'
      by_cases he : e' = e
      case pos =>
        subst he
        by_cases hn : x.source = n
        case pos => simp [hn, List.count_eq_zero]
        case neg => simpa [h, hn] using hcount
      case neg =>
        by_cases hn : x.source = n <;> simp [hn, he, hcount]
    case hin =>
      intro n e'
      rw [incoming_removeEdge h, edge?_removeEdge]
      have hcount := hg.count_incoming n e'
      by_cases he : e' = e
      case pos =>
        subst he
        by_cases hn : x.target = n
        case pos => simp [hn, List.count_eq_zero]
        case neg => simpa [h, hn] using hcount
      case neg =>
        by_cases hn : x.target = n <;> simp [hn, he, hcount]

theorem contains_rename (hnew : g.contains new = true) (hn : g.contains n = true) :
    g.contains (rename old new n) = true := by
  unfold rename
  split
  case isTrue => exact hnew
  case isFalse => exact hn

protected theorem redirectOutgoing (hg : g.WellFormed) (hne : old ≠ new) (hnew : g.contains new = true) :
    (g.redirectOutgoing old new).WellFormed := by
  apply hg.of_sameNodes sameNodes_redirectOutgoing
  case hends =>
    intro e x he
    rw [hg.wired.edge?_redirectOutgoing] at he
    have ⟨y, hy, hyx⟩ := Option.map_eq_some_iff.mp he
    have ⟨hs, ht⟩ := hg.source_mem e y hy
    cases hyx
    exact ⟨contains_rename hnew hs, ht⟩
  case hout =>
    intro n e
    have ho := hg.count_outgoing old e
    have hn := hg.count_outgoing n e
    rw [outgoing_redirectOutgoing (lt_of_contains hnew), hg.wired.edge?_redirectOutgoing, hg.wired.filter_outgoing]
    cases h : g.edge? e
    all_goals grind [rename]
  case hin =>
    intro n e
    rw [incoming_redirectOutgoing, hg.wired.edge?_redirectOutgoing, hg.count_incoming, Option.any_map]

protected theorem redirectIncoming (hg : g.WellFormed) (hne : old ≠ new) (hnew : g.contains new = true) :
    (g.redirectIncoming old new).WellFormed := by
  apply hg.of_sameNodes sameNodes_redirectIncoming
  case hends =>
    intro e x he
    rw [hg.wired.edge?_redirectIncoming] at he
    have ⟨y, hy, hyx⟩ := Option.map_eq_some_iff.mp he
    have ⟨hs, ht⟩ := hg.source_mem e y hy
    cases hyx
    exact ⟨hs, contains_rename hnew ht⟩
  case hout =>
    intro n e
    rw [outgoing_redirectIncoming, hg.wired.edge?_redirectIncoming, hg.count_outgoing, Option.any_map]
  case hin =>
    intro n e
    have ho := hg.count_incoming old e
    have hn := hg.count_incoming n e
    rw [incoming_redirectIncoming (lt_of_contains hnew), hg.wired.edge?_redirectIncoming, hg.wired.filter_incoming]
    cases h : g.edge? e
    all_goals grind [rename]

protected theorem redirect (hg : g.WellFormed) (hne : old ≠ new) (hnew : g.contains new = true) :
    (g.redirect old new).WellFormed :=
  (hg.redirectOutgoing hne hnew).redirectIncoming hne (sameNodes_redirectOutgoing.contains.trans hnew)

protected theorem removeEdges (hg : g.WellFormed) (es : List Nat) : (es.foldl removeEdge g).WellFormed := by
  induction es generalizing g
  case nil => exact hg
  case cons ih => exact ih hg.removeEdge

theorem hasEdge_removeNode (hg : g.WellFormed) :
    (g.removeNode n).HasEdge x ↔ g.HasEdge x ∧ x.source ≠ n ∧ x.target ≠ n where
  mp := by
    rintro ⟨e, he⟩
    rw [edge?_removeNode] at he
    split at he
    case isTrue => cases he
    case isFalse hnot =>
      rw [hg.wired.mem_incident] at hnot
      exact ⟨⟨e, he⟩, fun h => hnot ⟨x, he, .inl h⟩, fun h => hnot ⟨x, he, .inr h⟩⟩
  mpr := by
    rintro ⟨⟨e, he⟩, hs, ht⟩
    refine ⟨e, ?_⟩
    rw [edge?_removeNode, if_neg, he]
    rw [hg.wired.mem_incident, he]
    rintro ⟨y, hy, hst⟩
    cases hy
    exact hst.elim hs ht

theorem contains_removeNode : (g.removeNode n).contains m = (m != n && g.contains m) := by
  by_cases hm : m = n <;> simp [contains, node?_removeNode, hm]

theorem lookup_filter_of_nodup {p : String × Nat → Bool} {index : List (String × Nat)}
    (h : (index.map Prod.fst).Nodup) :
    (index.filter p).lookup a = some n ↔ index.lookup a = some n ∧ p (a, n) = true := by
  induction index
  case nil => simp
  case cons entry rest ih =>
    obtain ⟨b, m⟩ := entry
    rw [List.map_cons, List.nodup_cons] at h
    by_cases ha : a = b
    case pos =>
      subst ha
      have hrest : (rest.filter p).lookup a = none := by
        rw [List.lookup_eq_none_iff]
        intro entry hentry
        have hmem := List.mem_map_of_mem (f := Prod.fst) (List.mem_of_mem_filter hentry)
        exact bne_iff_ne.mpr fun heq => h.1 (heq ▸ hmem)
      by_cases hp : p (a, m) = true
      case pos =>
        simp only [List.filter_cons_of_pos hp, List.lookup_cons_self, Option.some.injEq]
        exact ⟨fun hm => ⟨hm, hm ▸ hp⟩, And.left⟩
      case neg =>
        rw [List.filter_cons_of_neg hp, hrest, List.lookup_cons_self]
        simp only [Option.some.injEq, reduceCtorEq, false_iff, not_and]
        exact fun hm => hm ▸ hp
    case neg =>
      have hab : (a == b) = false := beq_eq_false_iff_ne.mpr ha
      by_cases hp : p (b, m) = true
      case pos => rw [List.filter_cons_of_pos hp, List.lookup_cons, List.lookup_cons, hab]; exact ih h.2
      case neg => rw [List.filter_cons_of_neg hp, List.lookup_cons, hab]; exact ih h.2

end WellFormed

protected theorem Indexed.removeNode (hg : g.Indexed) : (g.removeNode n).Indexed := by
  cases hn : g.contains n
  case false =>
    rw [removeNode_of_not_contains hn]
    exact hg.of_sameNodes sameNodes_strip
  case true =>
    have hnodes : (g.removeNode n).nodes = g.nodes.filter (· != n) := by rw [removeNode_of_contains hn]
    have hindex : (g.removeNode n).aliasIndex = dropAlias (g.aliasName n) n g.aliasIndex := by
      rw [removeNode_of_contains hn]
    constructor
    case mem_nodes =>
      intro m
      simp [hnodes, hg.mem_nodes, WellFormed.contains_removeNode, and_comm]
    case nodup_nodes => exact hnodes ▸ hg.nodup_nodes.filter _
    case byAlias =>
      intro a m
      rw [byAlias?, hindex, dropAlias, WellFormed.lookup_filter_of_nodup hg.nodup_aliasIndex, ← byAlias?, hg.byAlias,
        WellFormed.contains_removeNode, aliasName_removeNode]
      by_cases hm : m = n
      case pos => simp_all
      case neg => simp [hm]
    case nodup_aliasIndex =>
      rw [hindex, dropAlias]
      exact (List.filter_sublist.map _).nodup hg.nodup_aliasIndex

namespace WellFormed

protected theorem removeNode (hg : g.WellFormed) : (g.removeNode n).WellFormed := by
  have hstrip : (g.strip n).WellFormed := hg.removeEdges _
  cases hn : g.contains n
  case false => exact removeNode_of_not_contains hn ▸ hstrip
  case true =>
    have hedge : ∀ e, (g.removeNode n).edge? e = (g.strip n).edge? e := by
      intro e
      rw [edge?_removeNode, edge?_strip]
    constructor
    case mem_nodes => exact hg.indexed.removeNode.mem_nodes
    case nodup_nodes => exact hg.indexed.removeNode.nodup_nodes
    case source_mem =>
      intro e x he
      have ⟨hx, hs, ht⟩ := hg.hasEdge_removeNode.mp ⟨e, he⟩
      simp [contains_removeNode, hs, ht, hg.contains_source hx, hg.contains_target hx]
    case count_outgoing =>
      intro m e
      rw [outgoing_removeNode, hedge]
      exact hstrip.count_outgoing m e
    case count_incoming =>
      intro m e
      rw [incoming_removeNode, hedge]
      exact hstrip.count_incoming m e
    case byAlias => exact hg.indexed.removeNode.byAlias
    case nodup_aliasIndex => exact hg.indexed.removeNode.nodup_aliasIndex

end WellFormed

end Subplans.QueryGraph
