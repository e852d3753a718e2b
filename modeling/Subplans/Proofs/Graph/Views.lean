import Mathlib.Tactic.ByContra
import Subplans.Query.Graph

/-!
What changes of a query graph do to what can be seen of it: to occurrences, aliases, edges and the edges of
a node.
-/

namespace Subplans

-- The same join between the nodes that stand for its ends.
def Edge.map (φ : Nat → Nat) (x : Edge) : Edge where
  source := φ x.source
  key := x.key
  target := φ x.target

@[simp] theorem Edge.map_id : Edge.map id = id :=
  rfl

namespace QueryGraph

variable {g g' : QueryGraph} {m n source key target e e' old new : Nat} {o : Occurrence} {x : Edge} {a b : String}

-- The graph has the edge, whatever its address.
def HasEdge (g : QueryGraph) (x : Edge) : Prop :=
  ∃ e, g.edge? e = some x

-- Nothing that is not there is virtual.
theorem isVirtual_eq : g.isVirtual n = (g.node n).isVirtual := by
  rw [isVirtual, node]
  cases g.node? n <;> rfl

-- One node in the place of another.
def rename (old new : Nat) (n : Nat) : Nat :=
  if n = old then new else n

@[simp] theorem rename_self : rename old new old = new :=
  if_pos rfl

theorem rename_of_ne (h : n ≠ old) : rename old new n = n :=
  if_neg h

theorem rename_ne (h : old ≠ new) : rename old new n ≠ old := by
  unfold rename
  split
  case isTrue => exact h.symm
  case isFalse hn => exact hn

@[simp] theorem rename_same : rename n n = id := by
  funext m
  unfold rename
  split <;> simp_all

theorem rename_new : rename old new new = new := by
  unfold rename
  split <;> rfl

section Slots

variable {f : NodeSlot → NodeSlot}

theorem node?_of_slot? (h : g'.slot? n = (g.slot? n).map f) (hf : ∀ s, (f s).occurrence = s.occurrence) :
    g'.node? n = g.node? n := by
  simp only [node?, h, Option.bind_map]
  cases g.slot? n
  case none => rfl
  case some s => exact hf s

theorem aliasName_of_slot? (h : g'.slot? n = (g.slot? n).map f) (hf : ∀ s, (f s).aliasName = s.aliasName) :
    g'.aliasName n = g.aliasName n := by
  simp only [aliasName, h, Option.map_map]
  cases g.slot? n
  case none => rfl
  case some s => exact hf s

theorem outgoing_of_slot? (h : g'.slot? n = (g.slot? n).map f) :
    g'.outgoing n = ((g.slot? n).map fun s => (f s).outgoing).getD [] := by
  simp only [outgoing, h, Option.map_map]
  rfl

theorem incoming_of_slot? (h : g'.slot? n = (g.slot? n).map f) :
    g'.incoming n = ((g.slot? n).map fun s => (f s).incoming).getD [] := by
  simp only [incoming, h, Option.map_map]
  rfl

theorem lt_of_contains (h : g.contains n = true) : n < g.slots.length := by
  by_contra hlt
  simp [contains, node?, slot?, List.getElem?_eq_none (Nat.le_of_not_lt hlt)] at h

theorem exists_slot? (h : n < g.slots.length) : ∃ s, g.slot? n = some s :=
  ⟨_, List.getElem?_eq_getElem h⟩

end Slots

-- The graphs differ in their edges only.
structure SameNodes (g g' : QueryGraph) : Prop where
  node?      : ∀ n, g'.node? n = g.node? n
  aliasName  : ∀ n, g'.aliasName n = g.aliasName n
  nodes      : g'.nodes = g.nodes
  aliasIndex : g'.aliasIndex = g.aliasIndex
  length     : g'.slots.length = g.slots.length

namespace SameNodes

theorem refl : SameNodes g g :=
  ⟨fun _ => rfl, fun _ => rfl, rfl, rfl, rfl⟩

theorem trans {g'' : QueryGraph} (h : SameNodes g g') (h' : SameNodes g' g'') : SameNodes g g'' where
  node? n := (h'.node? n).trans (h.node? n)
  aliasName n := (h'.aliasName n).trans (h.aliasName n)
  nodes := h'.nodes.trans h.nodes
  aliasIndex := h'.aliasIndex.trans h.aliasIndex
  length := h'.length.trans h.length

theorem contains (h : SameNodes g g') : g'.contains n = g.contains n := by
  rw [QueryGraph.contains, QueryGraph.contains, h.node?]

theorem isVirtual (h : SameNodes g g') : g'.isVirtual n = g.isVirtual n := by
  rw [QueryGraph.isVirtual, QueryGraph.isVirtual, h.node?]

theorem realNodes (h : SameNodes g g') : g'.realNodes = g.realNodes := by
  rw [QueryGraph.realNodes, QueryGraph.realNodes, h.nodes]
  exact List.filter_congr fun n _ => by rw [h.isVirtual]

end SameNodes

theorem edge?_length : g.edge? g.edges.length = none := by
  simp [edge?]

theorem lt_of_edge? (h : g.edge? e = some x) : e < g.edges.length := by
  by_contra hlt
  simp [edge?, List.getElem?_eq_none (Nat.le_of_not_lt hlt)] at h

theorem mem_edgeIds : e ∈ g.edgeIds ↔ (g.edge? e).isSome := by
  simp only [edgeIds, List.mem_filter, List.mem_range, and_iff_right_iff_imp]
  intro h
  have ⟨_, hx⟩ := Option.isSome_iff_exists.mp h
  exact lt_of_edge? hx

theorem nodup_edgeIds : g.edgeIds.Nodup :=
  List.nodup_range.filter _

theorem node?_add : (g.add o a).2.node? n = if n = g.slots.length then some o else g.node? n := by
  simp only [add, node?, slot?, List.getElem?_append, List.getElem?_singleton]
  by_cases hn : n = g.slots.length
  case pos => simp [hn]
  case neg =>
    by_cases hlt : n < g.slots.length
    case pos => simp [hlt, hn]
    case neg =>
      have : n - g.slots.length ≠ 0 := by omega
      simp [hlt, hn, this]

theorem node?_length : g.node? g.slots.length = none := by
  simp [node?, slot?]

theorem aliasName_add : (g.add o a).2.aliasName n = if n = g.slots.length then a else g.aliasName n := by
  simp only [add, aliasName, slot?, List.getElem?_append, List.getElem?_singleton]
  by_cases hn : n = g.slots.length
  case pos => simp [hn]
  case neg =>
    by_cases hlt : n < g.slots.length
    case pos => simp [hlt, hn]
    case neg =>
      have : n - g.slots.length ≠ 0 := by omega
      simp [hlt, hn, this]

theorem length_add : (g.add o a).2.slots.length = g.slots.length + 1 := by
  simp [add]

theorem outgoing_add : (g.add o a).2.outgoing n = g.outgoing n := by
  simp only [add, outgoing, slot?, List.getElem?_append, List.getElem?_singleton]
  by_cases hlt : n < g.slots.length
  case pos => simp [hlt]
  case neg =>
    by_cases hn : n - g.slots.length = 0
    case pos => simp [hlt, hn]
    case neg => simp [hlt, hn]

theorem incoming_add : (g.add o a).2.incoming n = g.incoming n := by
  simp only [add, incoming, slot?, List.getElem?_append, List.getElem?_singleton]
  by_cases hlt : n < g.slots.length
  case pos => simp [hlt]
  case neg =>
    by_cases hn : n - g.slots.length = 0
    case pos => simp [hlt, hn]
    case neg => simp [hlt, hn]

theorem edge?_add : (g.add o a).2.edge? e = g.edge? e :=
  rfl

theorem lookup_indexAlias {index : List (String × Nat)} :
    (indexAlias a n index).lookup b = if b = a then some n else index.lookup b := by
  by_cases hb : b = a
  case pos => simp [indexAlias, hb]
  case neg =>
    simp only [indexAlias, List.lookup_cons, beq_eq_false_iff_ne.mpr hb, hb, reduceIte]
    induction index
    case nil => rfl
    case cons entry rest ih =>
      obtain ⟨k, m⟩ := entry
      by_cases ha : k = a
      case pos => simp [ha, ih, List.lookup_cons, beq_eq_false_iff_ne.mpr hb]
      case neg => simp [ha, ih, List.lookup_cons]

theorem byAlias?_add : (g.add o a).2.byAlias? b = if b = a then some g.slots.length else g.byAlias? b :=
  lookup_indexAlias

theorem slot?_addEdge : (g.addEdge source key target).2.slot? n = (g.slot? n).map fun s => { s with
    outgoing := if source = n then s.outgoing ++ [g.edges.length] else s.outgoing
    incoming := if target = n then s.incoming ++ [g.edges.length] else s.incoming } := by
  simp only [addEdge, slot?, List.getElem?_modify]
  cases g.slots[n]?
  case none => rfl
  case some s => by_cases hs : source = n <;> by_cases ht : target = n <;> simp [hs, ht]

theorem sameNodes_addEdge : SameNodes g (g.addEdge source key target).2 where
  node? _ := node?_of_slot? slot?_addEdge fun _ => rfl
  aliasName _ := aliasName_of_slot? slot?_addEdge fun _ => rfl
  nodes := rfl
  aliasIndex := rfl
  length := by simp [addEdge]

theorem outgoing_addEdge (h : source < g.slots.length) : (g.addEdge source key target).2.outgoing n =
    g.outgoing n ++ if source = n then [g.edges.length] else [] := by
  have ⟨_, hs⟩ := exists_slot? h
  rw [outgoing_of_slot? slot?_addEdge, outgoing]
  cases hn : g.slot? n
  case none =>
    have hne : source ≠ n := fun he => by simp [he, hn] at hs
    simp [hne]
  case some s => by_cases hn : source = n <;> simp [hn]

theorem incoming_addEdge (h : target < g.slots.length) : (g.addEdge source key target).2.incoming n =
    g.incoming n ++ if target = n then [g.edges.length] else [] := by
  have ⟨_, ht⟩ := exists_slot? h
  rw [incoming_of_slot? slot?_addEdge, incoming]
  cases hn : g.slot? n
  case none =>
    have hne : target ≠ n := fun he => by simp [he, hn] at ht
    simp [hne]
  case some s => by_cases hn : target = n <;> simp [hn]

theorem edge?_addEdge : (g.addEdge source key target).2.edge? e =
    if e = g.edges.length then some ⟨source, key, target⟩ else g.edge? e := by
  simp only [addEdge, edge?, List.getElem?_append, List.getElem?_singleton]
  by_cases he : e = g.edges.length
  case pos => simp [he]
  case neg =>
    by_cases hlt : e < g.edges.length
    case pos => simp [hlt, he]
    case neg =>
      have : e - g.edges.length ≠ 0 := by omega
      simp [hlt, he, this]

theorem hasEdge_addEdge : (g.addEdge source key target).2.HasEdge x ↔ x = ⟨source, key, target⟩ ∨ g.HasEdge x where
  mp := by
    rintro ⟨e, he⟩
    rw [edge?_addEdge] at he
    split at he
    case isTrue => exact .inl (Option.some.inj he).symm
    case isFalse => exact .inr ⟨e, he⟩
  mpr := by
    rintro (rfl | ⟨e, he⟩)
    case inl => exact ⟨g.edges.length, by simp [edge?_addEdge]⟩
    case inr =>
      have hne := Nat.ne_of_lt (lt_of_edge? he)
      exact ⟨e, by simpa [edge?_addEdge, hne] using he⟩

theorem removeEdge_of_none (h : g.edge? e = none) : g.removeEdge e = g := by
  simp [removeEdge, h]

theorem slot?_removeEdge (h : g.edge? e = some x) : (g.removeEdge e).slot? n = (g.slot? n).map fun s => { s with
    outgoing := if x.source = n then s.outgoing.filter (· != e) else s.outgoing
    incoming := if x.target = n then s.incoming.filter (· != e) else s.incoming } := by
  simp only [removeEdge, h, slot?, List.getElem?_modify]
  cases g.slots[n]?
  case none => rfl
  case some s => by_cases hs : x.source = n <;> by_cases ht : x.target = n <;> simp [hs, ht]

theorem sameNodes_removeEdge : SameNodes g (g.removeEdge e) := by
  cases h : g.edge? e
  case none =>
    rw [removeEdge_of_none h]
    exact .refl
  case some x =>
    have hg : g.removeEdge e = { g with slots := (g.removeEdge e).slots, edges := g.edges.set e none } := by
      simp [removeEdge, h]
    exact ⟨fun _ => node?_of_slot? (slot?_removeEdge h) fun _ => rfl,
      fun _ => aliasName_of_slot? (slot?_removeEdge h) fun _ => rfl, by rw [hg], by rw [hg], by simp [removeEdge, h]⟩

theorem outgoing_removeEdge (h : g.edge? e = some x) : (g.removeEdge e).outgoing n =
    if x.source = n then (g.outgoing n).filter (· != e) else g.outgoing n := by
  rw [outgoing_of_slot? (slot?_removeEdge h), outgoing]
  cases g.slot? n <;> simp

theorem incoming_removeEdge (h : g.edge? e = some x) : (g.removeEdge e).incoming n =
    if x.target = n then (g.incoming n).filter (· != e) else g.incoming n := by
  rw [incoming_of_slot? (slot?_removeEdge h), incoming]
  cases g.slot? n <;> simp

theorem edge?_removeEdge : (g.removeEdge e).edge? e' = if e' = e then none else g.edge? e' := by
  cases h : g.edge? e
  case none =>
    rw [removeEdge_of_none h]
    split
    case isTrue he => rw [he, h]
    case isFalse => rfl
  case some x =>
    have hedges : (g.removeEdge e).edges = g.edges.set e none := by simp [removeEdge, h]
    simp only [edge?, hedges, List.getElem?_set, lt_of_edge? h]
    by_cases he : e = e'
    case pos => simp [he]
    case neg => simp [he, Ne.symm he]

theorem join_getElem?_foldl_modify {f : Edge → Edge} (hf : ∀ x, f (f x) = f x) (moved : List Nat)
    (edges : List (Option Edge)) :
    ((moved.foldl (fun edges e => edges.modify e (Option.map f)) edges)[e]?).join =
      if e ∈ moved then (edges[e]?).join.map f else (edges[e]?).join := by
  induction moved generalizing edges
  case nil => simp
  case cons e' moved ih =>
    rw [List.foldl_cons, ih, List.getElem?_modify]
    have he : e ∈ e' :: moved ↔ e' = e ∨ e ∈ moved := by simp [eq_comm]
    rw [if_congr he rfl rfl]
    match edges[e]? with
    | none => simp
    | some none => by_cases he : e' = e <;> simp [he]
    | some (some x) => by_cases he : e' = e <;> by_cases hm : e ∈ moved <;> simp [he, hm, hf]

theorem slot?_redirectOutgoing : (g.redirectOutgoing old new).slot? n = (g.slot? n).map fun s => { s with
    outgoing := (if old = n then [] else s.outgoing) ++
      (if new = n then (g.outgoing old).filter fun e => (g.edge? e).isSome else []) } := by
  simp only [redirectOutgoing, slot?, List.getElem?_modify]
  cases g.slots[n]?
  case none => rfl
  case some s => by_cases ho : old = n <;> by_cases hn : new = n <;> simp [ho, hn]

theorem slot?_redirectIncoming : (g.redirectIncoming old new).slot? n = (g.slot? n).map fun s => { s with
    incoming := (if old = n then [] else s.incoming) ++
      (if new = n then (g.incoming old).filter fun e => (g.edge? e).isSome else []) } := by
  simp only [redirectIncoming, slot?, List.getElem?_modify]
  cases g.slots[n]?
  case none => rfl
  case some s => by_cases ho : old = n <;> by_cases hn : new = n <;> simp [ho, hn]

theorem outgoing_redirectOutgoing (h : new < g.slots.length) : (g.redirectOutgoing old new).outgoing n =
    (if old = n then [] else g.outgoing n) ++
      (if new = n then (g.outgoing old).filter fun e => (g.edge? e).isSome else []) := by
  have ⟨_, hs⟩ := exists_slot? h
  rw [outgoing_of_slot? slot?_redirectOutgoing]
  cases hn : g.slot? n
  case none =>
    have hne : new ≠ n := fun he => by simp [he, hn] at hs
    simp [hne, outgoing, hn]
  case some s =>
    have hs : g.outgoing n = s.outgoing := by simp [outgoing, hn]
    simp [hs]

theorem incoming_redirectOutgoing : (g.redirectOutgoing old new).incoming n = g.incoming n := by
  rw [incoming_of_slot? slot?_redirectOutgoing, incoming]

theorem outgoing_redirectIncoming : (g.redirectIncoming old new).outgoing n = g.outgoing n := by
  rw [outgoing_of_slot? slot?_redirectIncoming, outgoing]

theorem incoming_redirectIncoming (h : new < g.slots.length) : (g.redirectIncoming old new).incoming n =
    (if old = n then [] else g.incoming n) ++
      (if new = n then (g.incoming old).filter fun e => (g.edge? e).isSome else []) := by
  have ⟨_, hs⟩ := exists_slot? h
  rw [incoming_of_slot? slot?_redirectIncoming]
  cases hn : g.slot? n
  case none =>
    have hne : new ≠ n := fun he => by simp [he, hn] at hs
    simp [hne, incoming, hn]
  case some s =>
    have hs : g.incoming n = s.incoming := by simp [incoming, hn]
    simp [hs]

theorem edge?_redirectOutgoing : (g.redirectOutgoing old new).edge? e =
    if e ∈ g.outgoing old then (g.edge? e).map ({ · with source := new }) else g.edge? e := by
  have hedges : (g.redirectOutgoing old new).edge? e = _ :=
    join_getElem?_foldl_modify (f := ({ · with source := new })) (fun _ => rfl) _ g.edges
  rw [hedges]
  by_cases he : e ∈ g.outgoing old
  case neg => simp [he, edge?]
  case pos => cases h : g.edges[e]?.join <;> simp [he, edge?, h]

theorem edge?_redirectIncoming : (g.redirectIncoming old new).edge? e =
    if e ∈ g.incoming old then (g.edge? e).map ({ · with target := new }) else g.edge? e := by
  have hedges : (g.redirectIncoming old new).edge? e = _ :=
    join_getElem?_foldl_modify (f := ({ · with target := new })) (fun _ => rfl) _ g.edges
  rw [hedges]
  by_cases he : e ∈ g.incoming old
  case neg => simp [he, edge?]
  case pos => cases h : g.edges[e]?.join <;> simp [he, edge?, h]

theorem sameNodes_redirectOutgoing : SameNodes g (g.redirectOutgoing old new) where
  node? _ := node?_of_slot? slot?_redirectOutgoing fun _ => rfl
  aliasName _ := aliasName_of_slot? slot?_redirectOutgoing fun _ => rfl
  nodes := rfl
  aliasIndex := rfl
  length := by simp [redirectOutgoing]

theorem sameNodes_redirectIncoming : SameNodes g (g.redirectIncoming old new) where
  node? _ := node?_of_slot? slot?_redirectIncoming fun _ => rfl
  aliasName _ := aliasName_of_slot? slot?_redirectIncoming fun _ => rfl
  nodes := rfl
  aliasIndex := rfl
  length := by simp [redirectIncoming]

theorem sameNodes_redirect : SameNodes g (g.redirect old new) :=
  sameNodes_redirectOutgoing.trans sameNodes_redirectIncoming

-- The graph without the edges of a node.
def strip (g : QueryGraph) (n : Nat) : QueryGraph :=
  (g.incident n).foldl removeEdge g

theorem sameNodes_removeEdges (es : List Nat) : SameNodes g (es.foldl removeEdge g) := by
  induction es generalizing g
  case nil => exact .refl
  case cons ih => exact sameNodes_removeEdge.trans ih

theorem edge?_removeEdges (es : List Nat) :
    (es.foldl removeEdge g).edge? e = if e ∈ es then none else g.edge? e := by
  induction es generalizing g
  case nil => simp
  case cons e' es ih =>
    rw [List.foldl_cons, ih, edge?_removeEdge]
    by_cases he : e = e' <;> simp [he]

theorem sameNodes_strip : SameNodes g (g.strip n) :=
  sameNodes_removeEdges _

theorem edge?_strip : (g.strip n).edge? e = if e ∈ g.incident n then none else g.edge? e :=
  edge?_removeEdges _

theorem removeNode_of_contains (h : g.contains n = true) : g.removeNode n = { g.strip n with
    slots := (g.strip n).slots.modify n fun s => { s with occurrence := none }
    nodes := g.nodes.filter (· != n)
    aliasIndex := dropAlias (g.aliasName n) n g.aliasIndex } := by
  have hsame := sameNodes_strip (g := g) (n := n)
  rw [← hsame.nodes, ← hsame.aliasIndex, ← hsame.aliasName]
  exact if_pos (hsame.contains.trans h)

theorem removeNode_of_not_contains (h : g.contains n = false) : g.removeNode n = g.strip n := by
  refine if_neg ?_
  rw [Bool.not_eq_true]
  exact sameNodes_strip.contains.trans h

theorem node?_removeNode : (g.removeNode n).node? m = if m = n then none else g.node? m := by
  rw [← (sameNodes_strip (g := g) (n := n)).node?]
  cases h : g.contains n
  case true =>
    rw [removeNode_of_contains h]
    simp only [node?, slot?, List.getElem?_modify]
    by_cases hm : n = m
    case pos => cases (g.strip n).slots[m]? <;> simp [hm]
    case neg => simp [hm, Ne.symm hm]
  case false =>
    rw [removeNode_of_not_contains h]
    have hnone : (g.strip n).node? n = none := by
      have : (g.strip n).contains n = false := sameNodes_strip.contains.trans h
      simpa [contains] using this
    split
    case isTrue hm => rw [hm, hnone]
    case isFalse => rfl

theorem aliasName_removeNode : (g.removeNode n).aliasName m = g.aliasName m := by
  rw [← (sameNodes_strip (g := g) (n := n)).aliasName]
  cases h : g.contains n
  case true =>
    rw [removeNode_of_contains h]
    simp only [aliasName, slot?, List.getElem?_modify]
    by_cases hm : n = m
    case pos => cases (g.strip n).slots[m]? <;> simp [hm]
    case neg => simp [hm]
  case false => rw [removeNode_of_not_contains h]

theorem length_removeNode : (g.removeNode n).slots.length = g.slots.length := by
  rw [← (sameNodes_strip (g := g) (n := n)).length]
  cases h : g.contains n
  case true => rw [removeNode_of_contains h, List.length_modify]
  case false => rw [removeNode_of_not_contains h]

theorem edge?_removeNode : (g.removeNode n).edge? e = if e ∈ g.incident n then none else g.edge? e := by
  rw [← edge?_strip]
  cases h : g.contains n
  case true => rw [removeNode_of_contains h]; rfl
  case false => rw [removeNode_of_not_contains h]

theorem outgoing_removeNode : (g.removeNode n).outgoing m = (g.strip n).outgoing m := by
  cases h : g.contains n
  case true =>
    rw [removeNode_of_contains h]
    simp only [outgoing, slot?, List.getElem?_modify]
    cases (g.strip n).slots[m]?
    case none => rfl
    case some s => by_cases hm : n = m <;> simp [hm]
  case false => rw [removeNode_of_not_contains h]

theorem incoming_removeNode : (g.removeNode n).incoming m = (g.strip n).incoming m := by
  cases h : g.contains n
  case true =>
    rw [removeNode_of_contains h]
    simp only [incoming, slot?, List.getElem?_modify]
    cases (g.strip n).slots[m]?
    case none => rfl
    case some s => by_cases hm : n = m <;> simp [hm]
  case false => rw [removeNode_of_not_contains h]

end QueryGraph

end Subplans
