import Subplans.Proofs.Equalities.Run
import Subplans.Proofs.Graph.Visits

/-!
What is looked up while equalities are collected.

`equalities?` collects equalities in the same way as `equalities`, but keeps account of the slots and nodes that have
entries in the tables, and gives up as soon as a class, a position, the equalities of a node or an edge is
asked for that is not stored. It never does, and on its way it takes in all edges (`Linked.collects_equalities`).
-/

namespace Subplans

open QueryGraph

-- The slots with entries in the tables of classes, and the nodes with a position, the latest first.
structure Entries where
  slots : List Slot
  nodes : List Nat

namespace Entries

def meet (t : Entries) (a b : Slot) : Entries :=
  { t with slots := a :: b :: t.slots }

def slot? (t : Entries) (a : Slot) : Option Slot :=
  if t.slots.contains a then some a else none

def classOf? (t : Entries) (cs : SlotClasses) (a : Slot) : Option (List Slot) := do
  return cs.classOf (← t.slot? a)

def same? (t : Entries) (cs : SlotClasses) (a b : Slot) : Option Bool := do
  return cs.same (← t.slot? a) (← t.slot? b)

def union? (t : Entries) (cs : SlotClasses) (a b : Slot) : Option SlotClasses := do
  return cs.union (← t.slot? a) (← t.slot? b)

def position? (t : Entries) (order : List Nat) (n : Nat) : Option Nat :=
  if t.nodes.contains n then some (order.idxOf n) else none

end Entries

namespace Equalities

def state? (q : Equalities) (node : Nat) (left right : Slot) : Option Equalities :=
  if (q.conditions.map Prod.fst).contains node then some (q.state node left right) else Option.none

def follow? (t : Entries) (q : Equalities) : (steps : Nat) → Slot → Option Slot
  | 0, a => some a
  | steps + 1, a =>
    match q.source.lookup a with
    | some next => do if ← t.same? q.stated next a then follow? t q steps next else some a
    | Option.none => some a

def root? (t : Entries) (q : Equalities) (a : Slot) : Option Slot :=
  follow? t q (q.source.length + 1) a

def addPair? (g : QueryGraph) (node : Nat) (edge : Edge) (acc : Entries × Equalities × List Slot)
    (pair : ColumnRef × ColumnRef) : Option (Entries × Equalities × List Slot) := do
  let (t, q, updated) := acc
  let left : Slot := ⟨edge.source, pair.1⟩
  let right : Slot := ⟨edge.target, pair.2⟩
  let t := t.meet left right
  if ← t.same? q.required left right then some (t, q, updated)
  else
    let q := { q with required := ← t.union? q.required left right }
    let source := sourced g q left right
    if g.isVirtual edge.source || g.isVirtual edge.target then some (t, { q with source }, enter updated left right)
    else
      let q := { q with stated := ← t.union? q.stated left right }
      let q ← q.state? node left right
      return (t, { q with source }, updated)

def addEdge? (g : QueryGraph) (s : Schema) (node : Nat) (acc : Entries × Equalities × List Slot) (e : Nat) :
    Option (Entries × Equalities × List Slot) := do
  let edge ← g.edge? e
  (s.key edge.key).pairs.foldlM (addPair? g node edge) acc

def compareWith? (g : QueryGraph) (order : List Nat) (t : Entries) (acc : Equalities × Slot) (candidate : Slot) :
    Option (Equalities × Slot) := do
  let (q, up) := acc
  if candidate.node == up.node || g.isVirtual candidate.node then some (q, up)
  else if ← t.same? q.stated up candidate then some (q, up)
  else
    let other ← root? t q candidate
    let up ← root? t q up
    let q := { q with stated := ← t.union? q.stated up other }
    let before := (← t.position? order up.node) < (← t.position? order other.node)
    let (left, right) := if before then (other, up) else (up, other)
    let q := if (q.source.lookup left).isNone && (q.source.lookup right).isNone then
      { q with source := Assoc.put left right q.source } else q
    return (← q.state? left.node left right, up)

def repair? (g : QueryGraph) (order : List Nat) (t : Entries) (q : Equalities) (start : Slot) : Option Equalities :=
  if g.isVirtual start.node then some q
  else do
    let candidates ← t.classOf? q.required start
    let (q, _) ← candidates.foldlM (compareWith? g order t) (q, start)
    return q

def visit? (g : QueryGraph) (s : Schema) (order : List Nat) (acc : Entries × Equalities) (v : Nat × List Nat) :
    Option (Entries × Equalities) := do
  let (t, q) := acc
  let (t, q, updated) ← v.2.foldlM (addEdge? g s v.1) ({ t with nodes := v.1 :: t.nodes }, opened g v.1 q, [])
  let q ← updated.foldlM (repair? g order t) q
  return (t, q)

end Equalities

def QueryGraph.equalities? (g : QueryGraph) (s : Schema) : Option (List (Nat × List (Slot × Slot))) := do
  let (_, q) ← g.traverse.foldlM (Equalities.visit? g s g.visitOrder) (⟨[], []⟩, .none)
  return q.conditions

variable {s : Schema} {g : QueryGraph} {order listed : List Nat} {slots pending done : List Slot} {q q' : Equalities}
  {t : Entries} {node n steps e : Nat} {x : Edge} {a b l r start up candidate : Slot}

namespace Entries

theorem slot?_eq_some (ha : a ∈ t.slots) : t.slot? a = some a := by
  simp [slot?, ha]

theorem same?_eq_some {cs : SlotClasses} (ha : a ∈ t.slots) (hb : b ∈ t.slots) :
    t.same? cs a b = some (cs.same a b) := by
  simp [same?, slot?_eq_some ha, slot?_eq_some hb]

theorem union?_eq_some {cs : SlotClasses} (ha : a ∈ t.slots) (hb : b ∈ t.slots) :
    t.union? cs a b = some (cs.union a b) := by
  simp [union?, slot?_eq_some ha, slot?_eq_some hb]

theorem position?_eq_some (hn : n ∈ t.nodes) : t.position? order n = some (order.idxOf n) := by
  simp [position?, hn]

end Entries

namespace Equalities

theorem state?_eq_some (hn : node ∈ q.conditions.map Prod.fst) : q.state? node l r = some (q.state node l r) := by
  rw [state?, if_pos (List.contains_iff_mem.mpr hn)]

theorem follow?_eq_some (he : Entered listed t.slots q) (ha : a ∈ t.slots) :
    follow? t q steps a = some (q.follow steps a) := by
  induction steps generalizing a
  case zero => rfl
  case succ steps ih =>
    cases hnext : q.source.lookup a
    case none => simp [follow?, follow, hnext]
    case some next =>
      have hmem : next ∈ t.slots := he.source a next hnext
      simp only [follow?, follow, hnext, Entries.same?_eq_some hmem ha, Option.bind_eq_bind, Option.bind_some]
      split
      case isTrue => exact ih hmem
      case isFalse => rfl

theorem root?_eq_some (he : Entered listed t.slots q) (ha : a ∈ t.slots) : root? t q a = some (q.root a) :=
  follow?_eq_some he ha

-- A loop that gives up at no element keeps what is said of those done, and its result is that of the plain loop.
theorem foldlM_eq_some {α β γ : Type} {f? : β → α → Option β} {f : γ → α → γ} {view : β → γ} {P : List α → β → Prop}
    {xs done : List α} {b : β} (hb : P done b)
    (hstep : ∀ x ∈ xs, ∀ done b, P done b → ∃ b', f? b x = some b' ∧ view b' = f (view b) x ∧ P (x :: done) b') :
    ∃ b', xs.foldlM f? b = some b' ∧ view b' = xs.foldl f (view b) ∧ P (xs.reverse ++ done) b' := by
  induction xs generalizing done b
  case nil => exact ⟨b, rfl, rfl, hb⟩
  case cons x xs ih =>
    obtain ⟨b', hb', hview, hP⟩ := hstep x List.mem_cons_self done b hb
    obtain ⟨b'', hb'', hview', hP'⟩ := ih hP fun x hx => hstep x (List.mem_cons_of_mem _ hx)
    refine ⟨b'', ?_, ?_, ?_⟩
    · rw [List.foldlM_cons, hb']
      exact hb''
    · rw [hview', hview, List.foldl_cons]
    · simpa using hP'

theorem addPair?_eq_some {pair : ColumnRef × ColumnRef} {updated : List Slot}
    (hnode : g.isVirtual x.source = false → g.isVirtual x.target = false → node ∈ q.conditions.map Prod.fst) :
    addPair? g node x (t, q, updated) pair =
      some (t.meet ⟨x.source, pair.1⟩ ⟨x.target, pair.2⟩, addPair g node x (q, updated) pair) := by
  have hl : ⟨x.source, pair.1⟩ ∈ (t.meet ⟨x.source, pair.1⟩ ⟨x.target, pair.2⟩).slots := by simp [Entries.meet]
  have hr : ⟨x.target, pair.2⟩ ∈ (t.meet ⟨x.source, pair.1⟩ ⟨x.target, pair.2⟩).slots := by simp [Entries.meet]
  simp only [addPair?, Entries.same?_eq_some hl hr, Entries.union?_eq_some hl hr, Option.bind_eq_bind, Option.bind_some]
  by_cases h : q.required.same ⟨x.source, pair.1⟩ ⟨x.target, pair.2⟩ = true
  case pos => simp [addPair, h]
  case neg =>
    cases hs : g.isVirtual x.source <;> cases ht : g.isVirtual x.target
    case false.false => simp [addPair, h, hs, ht, state?, hnode hs ht, state, sourced]
    all_goals simp [addPair, h, hs, ht, sourced, enter]

theorem compareWith?_eq_some (hu : Underway s g order t.nodes t.slots q start (q', up)) (hs : Met g t.slots start)
    (hc : q.required.same start candidate = true) :
    compareWith? g order t (q', up) candidate = some (compareWith g order (q', up) candidate) := by
  have ⟨hq, he, hrequired, _, hsame⟩ := hu
  have hup : Met g t.slots up := hs.of_same hq he hsame
  have hmem : candidate ∈ t.slots := he.mem_of_same (hrequired ▸ hc) hs.1
  by_cases hnode : candidate.node = up.node
  case pos => simp [compareWith?, compareWith, hnode]
  by_cases hv : g.isVirtual candidate.node = true
  case pos => simp [compareWith?, compareWith, hv]
  have hroot : Met g t.slots (q'.root up) := hup.of_same hq he (same_root hq.stated)
  have hother : Met g t.slots (q'.root candidate) :=
    Met.of_same hq he (same_root hq.stated) ⟨hmem, by simpa using hv⟩
  by_cases hstated : q'.stated.same up candidate = true
  case pos => simp [compareWith?, compareWith, hnode, hv, hstated, Entries.same?_eq_some hup.1 hmem]
  have hnodes : ∀ m, m = (q'.root up).node ∨ m = (q'.root candidate).node → m ∈ q'.conditions.map Prod.fst := by
    rintro m (rfl | rfl)
    case inl => exact hroot.mem_nodes hq he
    case inr => exact hother.mem_nodes hq he
  simp only [compareWith?, compareWith, hnode, hv, hstated, Entries.same?_eq_some hup.1 hmem, root?_eq_some he hup.1,
    root?_eq_some he hmem, Entries.union?_eq_some hroot.1 hother.1, Entries.position?_eq_some (he.nodes _ hroot.1),
    Entries.position?_eq_some (he.nodes _ hother.1), Option.bind_eq_bind, Option.bind_some, beq_iff_eq, Bool.or_eq_true,
    or_self, if_false, Bool.false_eq_true]
  by_cases hlt : order.idxOf (q'.root up).node < order.idxOf (q'.root candidate).node
  case pos =>
    simp only [hlt, if_true]
    rw [state?_eq_some]
    · rfl
    · split <;> exact hnodes _ (.inr rfl)
  case neg =>
    simp only [hlt, if_false]
    rw [state?_eq_some]
    · rfl
    · split <;> exact hnodes _ (.inl rfl)

theorem repair?_eq_some (hr : Reached s g order t.nodes t.slots q (start :: pending)) :
    repair? g order t q start = some (repair g order q start) ∧
      (repair g order q start).required = q.required ∧
      Reached s g order t.nodes t.slots (repair g order q start) pending := by
  by_cases hv : g.isVirtual start.node = true
  case pos =>
    have heq : repair g order q start = q := by simp [repair, hv]
    rw [heq]
    exact ⟨by simp [repair?, hv], rfl, hr.skip hv⟩
  case neg =>
    have hv : g.isVirtual start.node = false := by simpa using hv
    have ⟨hq, he, hmem⟩ := hr.invariant
    have hs : Met g t.slots start := ⟨hmem _ List.mem_cons_self, hv⟩
    have hstep : ∀ candidate ∈ q.required.classOf start, ∀ done r, Compares g order q start done r →
        ∃ r', compareWith? g order t r candidate = some r' ∧ id r' = compareWith g order (id r) candidate ∧
          Compares g order q start (candidate :: done) r' := by
      intro candidate hc done r hr
      have hc := SlotClasses.mem_classOf.mp hc
      exact ⟨_, compareWith?_eq_some (hr.underway hq he hs) hs hc, rfl, .cons hr hc compared_compareWith⟩
    obtain ⟨r, hr?, hr', hc⟩ := foldlM_eq_some .nil hstep
    have heq : repair g order q start = r.1 := by
      rw [repair, if_neg (by simp [hv])]
      exact congrArg Prod.fst hr'.symm
    rw [heq]
    refine ⟨?_, (hc.underway hq he hs).required, hr.repair hv hc fun c h => ?_⟩
    · simp [repair?, hv, Entries.classOf?, Entries.slot?_eq_some hs.1, hr?]
    · simpa using SlotClasses.mem_classOf.mpr h

-- The pairs of columns of the edge are taken in.
def TakenIn (q : Equalities) (x : Edge) (pairs : List (ColumnRef × ColumnRef)) : Prop :=
  ∀ pair ∈ pairs, q.required.same ⟨x.source, pair.1⟩ ⟨x.target, pair.2⟩ = true

-- All edges between two of the nodes are taken in.
def Covers (s : Schema) (g : QueryGraph) (listed : List Nat) (q : Equalities) : Prop :=
  ∀ x, g.HasEdge x → x.source ∈ listed → x.target ∈ listed → x.source ≠ x.target →
    TakenIn q x (s.key x.key).pairs

def Grows (q q' : Equalities) : Prop :=
  ∀ a b, q.required.same a b = true → q'.required.same a b = true

theorem TakenIn.grows {pairs : List (ColumnRef × ColumnRef)} (h : TakenIn q x pairs) (hq : Grows q q') :
    TakenIn q' x pairs :=
  fun pair hp => hq _ _ (h pair hp)

theorem Grows.trans {q'' : Equalities} (h : Grows q q') (h' : Grows q' q'') : Grows q q'' :=
  fun a b hab => h' a b (h a b hab)

-- What holds after some edges or pairs of columns of a node have been taken in.
structure Visiting (s : Schema) (g : QueryGraph) (order listed : List Nat) (q : Equalities)
    (acc : Entries × Equalities × List Slot) : Prop where
  nodes   : acc.1.nodes = listed
  reached : Reached s g order listed acc.1.slots acc.2.1 acc.2.2
  grows   : Grows q acc.2.1

theorem required_taken {r : Equalities × List Slot} (hq : q.required.Partition) (h : Taken g n q pending a b r) :
    Grows q r.1 ∧ r.1.required.same a b = true := by
  cases h
  case known h => exact ⟨fun _ _ => id, h⟩
  case stated | entered =>
    exact ⟨fun _ _ => SlotClasses.same_union_of_same hq, SlotClasses.same_union_self hq⟩

-- The edge links the node that is visited to one that is listed.
structure LinksTo (g : QueryGraph) (n : Nat) (listed : List Nat) (x : Edge) : Prop where
  hasEdge : g.HasEdge x
  node    : x.source = n ∨ x.target = n
  source  : x.source ∈ n :: listed
  target  : x.target ∈ n :: listed

theorem visiting_addPair {acc : Entries × Equalities × List Slot} {pair : ColumnRef × ColumnRef}
    (hx : LinksTo g n listed x) (hp : pair ∈ (s.key x.key).pairs) (hacc : Visiting s g order (n :: listed) q acc) :
    ∃ acc', addPair? g n x acc pair = some acc' ∧ acc'.2 = addPair g n x acc.2 pair ∧
      Visiting s g order (n :: listed) q acc' ∧ Grows acc.2.1 acc'.2.1 ∧
      acc'.2.1.required.same ⟨x.source, pair.1⟩ ⟨x.target, pair.2⟩ = true := by
  obtain ⟨t, q', updated⟩ := acc
  have ⟨hnodes, hr, hgrows⟩ := hacc
  have hq : Sound s g order (n :: listed) q' := hr.invariant.sound
  have htaken : Taken g n q' updated _ _ (addPair g n x (q', updated) pair) := taken_addPair
  have ⟨hgrows', hsame⟩ := required_taken hq.required htaken
  refine ⟨_, addPair?_eq_some fun hs ht => ?_, rfl, ⟨hnodes, ?_, hgrows.trans hgrows'⟩, hgrows', hsame⟩
  case refine_1 =>
    refine hq.mem_nodes.mpr ⟨List.mem_cons_self, ?_⟩
    rcases hx.node with rfl | rfl
    case inl => exact hs
    case inr => exact ht
  case refine_2 => exact hr.take hx.hasEdge hp hx.node hx.source hx.target htaken

theorem visiting_addEdge {acc : Entries × Equalities × List Slot} (he : g.edge? e = some x)
    (hx : LinksTo g n listed x) (hacc : Visiting s g order (n :: listed) q acc) :
    ∃ acc', addEdge? g s n acc e = some acc' ∧ acc'.2 = addEdge g s n acc.2 e ∧
      Visiting s g order (n :: listed) q acc' ∧ Grows acc.2.1 acc'.2.1 ∧
      TakenIn acc'.2.1 x (s.key x.key).pairs := by
  have hstart : Visiting s g order (n :: listed) q acc ∧ Grows acc.2.1 acc.2.1 ∧ TakenIn acc.2.1 x [] :=
    ⟨hacc, fun _ _ => id, by simp [TakenIn]⟩
  have hstep : ∀ pair ∈ (s.key x.key).pairs, ∀ done b,
      (Visiting s g order (n :: listed) q b ∧ Grows acc.2.1 b.2.1 ∧ TakenIn b.2.1 x done) →
      ∃ b', addPair? g n x b pair = some b' ∧ b'.2 = addPair g n x b.2 pair ∧
        Visiting s g order (n :: listed) q b' ∧ Grows acc.2.1 b'.2.1 ∧ TakenIn b'.2.1 x (pair :: done) := by
    rintro pair hp done b ⟨hb, hgrows, hdone⟩
    obtain ⟨b', hb?, hview, hb', hgrows', hsame⟩ := visiting_addPair hx hp hb
    exact ⟨b', hb?, hview, hb', hgrows.trans hgrows', List.forall_mem_cons.mpr ⟨hsame, hdone.grows hgrows'⟩⟩
  obtain ⟨acc', hacc?, hview, hacc', hgrows, hall⟩ := foldlM_eq_some hstart hstep
  refine ⟨acc', ?_, ?_, hacc', hgrows, fun pair hp => hall pair (by simpa using hp)⟩
  · simp [addEdge?, he, hacc?]
  · simp [addEdge, he, hview]

theorem visiting_edges {acc : Entries × Equalities × List Slot} {edges : List Nat}
    (hx : ∀ e ∈ edges, ∃ x, g.edge? e = some x ∧ LinksTo g n listed x)
    (hacc : Visiting s g order (n :: listed) q acc) :
    ∃ acc', edges.foldlM (addEdge? g s n) acc = some acc' ∧ acc'.2 = edges.foldl (addEdge g s n) acc.2 ∧
      Visiting s g order (n :: listed) q acc' ∧
      ∀ e ∈ edges, ∀ x, g.edge? e = some x → TakenIn acc'.2.1 x (s.key x.key).pairs := by
  have hstart : Visiting s g order (n :: listed) q acc ∧
      ∀ e ∈ ([] : List Nat), ∀ x, g.edge? e = some x → TakenIn acc.2.1 x (s.key x.key).pairs :=
    ⟨hacc, by simp⟩
  have hstep : ∀ e ∈ edges, ∀ done b, (Visiting s g order (n :: listed) q b ∧
        ∀ e ∈ done, ∀ x, g.edge? e = some x → TakenIn b.2.1 x (s.key x.key).pairs) →
      ∃ b', addEdge? g s n b e = some b' ∧ b'.2 = addEdge g s n b.2 e ∧ Visiting s g order (n :: listed) q b' ∧
        ∀ d ∈ e :: done, ∀ x, g.edge? d = some x → TakenIn b'.2.1 x (s.key x.key).pairs := by
    rintro e he done b ⟨hb, hdone⟩
    obtain ⟨x, hex, hlinks⟩ := hx e he
    obtain ⟨b', hb?, hview, hb', hgrows, htaken⟩ := visiting_addEdge hex hlinks hb
    refine ⟨b', hb?, hview, hb', List.forall_mem_cons.mpr ⟨fun y hy => ?_, fun d hd y hy => ?_⟩⟩
    · cases hex.symm.trans hy
      exact htaken
    · exact (hdone d hd y hy).grows hgrows
  obtain ⟨acc', hacc?, hview, hacc', hall⟩ := foldlM_eq_some hstart hstep
  exact ⟨acc', hacc?, hview, hacc', fun e he => hall e (by simpa using he)⟩

theorem links_of_mem_edgesTo (hg : g.Linked) (hn : n ∉ listed) (he : e ∈ g.edgesTo listed n) :
    ∃ x, g.edge? e = some x ∧ LinksTo g n listed x := by
  obtain ⟨x, hx, rfl | rfl, h⟩ := hg.mem_edgesTo.mp he
  case inl => exact ⟨x, hx, ⟨e, hx⟩, .inl rfl, List.mem_cons_self, List.mem_cons_of_mem _ (h.resolve_left hn)⟩
  case inr => exact ⟨x, hx, ⟨e, hx⟩, .inr rfl, List.mem_cons_of_mem _ (h.resolve_right hn), List.mem_cons_self⟩

theorem reached_repairs (hr : Reached s g order t.nodes t.slots q pending) :
    pending.foldlM (repair? g order t) q = some (pending.foldl (repair g order) q) ∧
      (pending.foldl (repair g order) q).required = q.required ∧
      Reached s g order t.nodes t.slots (pending.foldl (repair g order) q) [] := by
  induction pending generalizing q
  case nil => exact ⟨rfl, rfl, hr⟩
  case cons start pending ih =>
    have ⟨hsome, hrequired, hr'⟩ := repair?_eq_some hr
    have ⟨hsome', hrequired', hr''⟩ := ih hr'
    refine ⟨?_, hrequired'.trans hrequired, hr''⟩
    rw [List.foldlM_cons, hsome]
    exact hsome'

-- The nodes that are listed have been visited, with all edges between them.
structure Visited (s : Schema) (g : QueryGraph) (order listed : List Nat) (acc : Entries × Equalities) : Prop where
  nodes   : acc.1.nodes = listed
  reached : Reached s g order listed acc.1.slots acc.2 []
  covers  : Covers s g listed acc.2

theorem Covers.cons (hg : g.Linked) (h : Covers s g listed q) (hq : Grows q q')
    (htaken : ∀ e ∈ g.edgesTo listed n, ∀ x, g.edge? e = some x → TakenIn q' x (s.key x.key).pairs) :
    Covers s g (n :: listed) q' := by
  intro x hx hs ht hne
  have ⟨e, he⟩ := hx
  have latest (h : e ∈ g.edgesTo listed n) : TakenIn q' x (s.key x.key).pairs := htaken e h x he
  rcases List.mem_cons.mp hs with hs | hs <;> rcases List.mem_cons.mp ht with ht | ht
  · exact absurd (hs.trans ht.symm) hne
  · exact latest (hg.mem_edgesTo.mpr ⟨x, he, .inl hs, .inr ht⟩)
  · exact latest (hg.mem_edgesTo.mpr ⟨x, he, .inr ht, .inl hs⟩)
  · exact (h x hx hs ht hne).grows hq

theorem visited_visit {acc : Entries × Equalities} (hg : g.Linked) (hnew : n ∉ listed)
    (hn : ∀ m ∈ listed, order.idxOf m ≤ order.idxOf n) (hacc : Visited s g order listed acc) :
    ∃ acc', visit? g s order acc (n, g.edgesTo listed n) = some acc' ∧
      acc'.2 = visit g s order acc.2 (n, g.edgesTo listed n) ∧ Visited s g order (n :: listed) acc' := by
  obtain ⟨t, q⟩ := acc
  have ⟨hnodes, hr, hcovers⟩ := hacc
  have hstart : Visiting s g order (n :: listed) (opened g n q) ({ t with nodes := n :: t.nodes }, opened g n q, []) :=
    ⟨congrArg _ hnodes, hr.visit hn, fun _ _ => id⟩
  obtain ⟨⟨t', q', pending⟩, hsome, hview, ⟨hnodes', hr', hgrows⟩, htaken⟩ :=
    visiting_edges (fun e he => links_of_mem_edgesTo hg hnew he) hstart
  dsimp only at hnodes' hr' hgrows htaken hview
  rw [← hnodes'] at hr'
  have ⟨hrepair, hrequired, hr''⟩ := reached_repairs hr'
  refine ⟨(t', pending.foldl (repair g order) q'), ?_, ?_, hnodes', hnodes' ▸ hr'', ?_⟩
  case refine_1 => simp [visit?, hsome, hrepair]
  case refine_2 =>
    have hvisit : visit g s order q (n, g.edgesTo listed n) =
        ((g.edgesTo listed n).foldl (addEdge g s n) (opened g n q, [])).2.foldl (repair g order)
          ((g.edgesTo listed n).foldl (addEdge g s n) (opened g n q, [])).1 := rfl
    rw [hvisit, ← hview]
  case refine_3 =>
    have hopened : Grows q (opened g n q) := by simp [Grows]
    have hrepaired : Grows q' (pending.foldl (repair g order) q') := fun a b h => hrequired.symm ▸ h
    exact hcovers.cons hg ((hopened.trans hgrows).trans hrepaired) fun e he x hx => (htaken e he x hx).grows hrepaired

theorem visited_visits {acc : Entries × Equalities} {visits : List (Nat × List Nat)} (hg : g.Linked)
    (hv : g.Visits listed visits) (ho : order = (listing listed visits).reverse)
    (hacc : Visited s g order listed acc) :
    ∃ acc', visits.foldlM (visit? g s order) acc = some acc' ∧ acc'.2 = visits.foldl (visit g s order) acc.2 ∧
      Visited s g order (listing listed visits) acc' := by
  induction hv generalizing acc
  case nil listed => exact ⟨acc, rfl, rfl, by simpa [listing] using hacc⟩
  case cons listed n visits _ hnew hrest ih =>
    rw [listing_cons] at ho ⊢
    have hbefore : ∀ m ∈ listed, order.idxOf m ≤ order.idxOf n := by
      intro m hm
      have hsplit : order = listed.reverse ++ n :: visits.map Prod.fst := by simp [ho, listing]
      rw [hsplit, List.idxOf_append_of_mem (List.mem_reverse.mpr hm),
        List.idxOf_append_of_notMem (fun h => hnew (List.mem_reverse.mp h))]
      have hlt := List.idxOf_lt_length_of_mem (List.mem_reverse.mpr hm)
      omega
    obtain ⟨acc', hsome, hview, hacc'⟩ := visited_visit hg hnew hbefore hacc
    obtain ⟨acc'', hsome', hview', hacc''⟩ := ih ho hacc'
    refine ⟨acc'', ?_, ?_, hacc''⟩
    · rw [List.foldlM_cons, hsome]
      exact hsome'
    · rw [hview', hview, List.foldl_cons]

end Equalities

namespace QueryGraph

-- What is known when all nodes have been visited.
structure Collects (s : Schema) (g : QueryGraph) (slots : List Slot) (q : Equalities) : Prop where
  linked  : g.Linked
  reached : Equalities.Reached s g g.visitOrder g.visitOrder.reverse slots q []
  covers  : Equalities.Covers s g g.visitOrder.reverse q

theorem Linked.collects_equalities (hg : g.Linked) (s : Schema) : ∃ slots q,
    g.equalities? s = some q.conditions ∧ g.equalities s = q.conditions ∧ g.Collects s slots q := by
  have hlisting : listing [] g.traverse = g.visitOrder.reverse := by simp [listing, visitOrder]
  have hstart : Equalities.Visited s g g.visitOrder [] (⟨[], []⟩, .none) :=
    ⟨rfl, .start, fun x _ hs => by simp at hs⟩
  obtain ⟨⟨t, q⟩, hsome, hview, _, hr, hcovers⟩ := Equalities.visited_visits hg hg.visits_traverse.1
    (by rw [hlisting, List.reverse_reverse]) hstart
  rw [hlisting] at hr hcovers
  refine ⟨t.slots, q, ?_, ?_, hg, hr, hcovers⟩
  · simp [equalities?, hsome]
  · rw [equalities]
    exact congrArg Equalities.conditions hview.symm

end QueryGraph

end Subplans
