import Subplans.Proofs.Equalities.Steps

/-!
What holds while equalities are collected.

`Reached` tells what the collection can come to: a node is visited, a pair of columns of one of its edges is
taken in, and a slot that was met on the way is compared with those that it has to be equal to. All the way the
tables are complete (`Entered`), and no equality is collected that the graph does not force (`Sound`).
-/

namespace Subplans.Equalities

open QueryGraph Relation

variable {s : Schema} {g : QueryGraph} {order listed : List Nat} {slots pending done : List Slot} {q : Equalities}
  {node n m : Nat} {x : Edge} {a b l r start up candidate : Slot} {source : List (Slot × Slot)}

-- A node that is not virtual is visited.
def opened (g : QueryGraph) (n : Nat) (q : Equalities) : Equalities :=
  if g.isVirtual n then q else { q with conditions := q.conditions ++ [(n, [])] }

@[simp] theorem required_opened : (opened g n q).required = q.required := by
  unfold opened
  split <;> rfl

@[simp] theorem stated_opened : (opened g n q).stated = q.stated := by
  unfold opened
  split <;> rfl

@[simp] theorem source_opened : (opened g n q).source = q.source := by
  unfold opened
  split <;> rfl

theorem statesAt_opened : (opened g n q).StatesAt m a b ↔ q.StatesAt m a b := by
  unfold opened
  split
  case isTrue => rfl
  case isFalse => simp +contextual [StatesAt, or_and_right, exists_or]

-- The slot has been compared with some of those that it has to be equal to, the latest of them first.
inductive Compares (g : QueryGraph) (order : List Nat) (q : Equalities) (start : Slot) :
    List Slot → Equalities × Slot → Prop
  | nil : Compares g order q start [] (q, start)
  | cons {done : List Slot} {q' : Equalities} {up candidate : Slot} {r : Equalities × Slot} :
    Compares g order q start done (q', up) → q.required.same start candidate = true →
    Compared g order q' up candidate r → Compares g order q start (candidate :: done) r

-- What is known after some steps: the nodes visited, the latest first, the slots met, the equalities and the slots
-- that are still to be compared.
inductive Reached (s : Schema) (g : QueryGraph) (order : List Nat) :
    List Nat → List Slot → Equalities → List Slot → Prop
  | start : Reached s g order [] [] none []
  | visit {listed : List Nat} {slots : List Slot} {q : Equalities} {n : Nat} :
    Reached s g order listed slots q [] → (∀ m ∈ listed, order.idxOf m ≤ order.idxOf n) →
    Reached s g order (n :: listed) slots (opened g n q) []
  | take {listed : List Nat} {slots pending : List Slot} {q : Equalities} {n : Nat} {x : Edge}
      {pair : ColumnRef × ColumnRef} {r : Equalities × List Slot} :
    Reached s g order (n :: listed) slots q pending → g.HasEdge x → pair ∈ (s.key x.key).pairs →
    (x.source = n ∨ x.target = n) → x.source ∈ n :: listed → x.target ∈ n :: listed →
    Taken g n q pending ⟨x.source, pair.1⟩ ⟨x.target, pair.2⟩ r →
    Reached s g order (n :: listed) (⟨x.source, pair.1⟩ :: ⟨x.target, pair.2⟩ :: slots) r.1 r.2
  | skip {listed : List Nat} {slots pending : List Slot} {q : Equalities} {start : Slot} :
    Reached s g order listed slots q (start :: pending) → g.isVirtual start.node = true →
    Reached s g order listed slots q pending
  | repair {listed : List Nat} {slots pending done : List Slot} {q : Equalities} {start : Slot}
      {r : Equalities × Slot} :
    Reached s g order listed slots q (start :: pending) → g.isVirtual start.node = false →
    Compares g order q start done r → (∀ c, q.required.same start c = true → c ∈ done) →
    Reached s g order listed slots r.1 pending

-- Slots that are in a class with others have been met, and so have sources.
structure Entered (listed : List Nat) (slots : List Slot) (q : Equalities) : Prop where
  required : q.required.Partition
  nodes    : ∀ a ∈ slots, a.node ∈ listed
  same     : ∀ a b, q.required.same a b = true → a ≠ b → a ∈ slots
  source   : ∀ a b, q.source.lookup a = some b → b ∈ slots

namespace Entered

theorem mem_of_same (he : Entered listed slots q) (h : q.required.same a b = true) (ha : a ∈ slots) : b ∈ slots := by
  by_cases hab : b = a
  case pos => exact hab ▸ ha
  case neg => exact he.same b a (SlotClasses.same_symm he.required h) hab

theorem put (he : Entered listed slots q) (hr : r ∈ slots) :
    Entered listed slots { q with source := Assoc.put l r q.source } where
  required := he.required
  nodes := he.nodes
  same := he.same
  source a b h := by
    rw [Assoc.lookup_put] at h
    split at h
    case isTrue => exact Option.some.inj h ▸ hr
    case isFalse => exact he.source a b h

theorem sourced (he : Entered listed slots q) (hb : b ∈ slots) :
    Entered listed slots { q with source := sourced g q a b } := by
  unfold Equalities.sourced
  split
  case isTrue => exact he
  case isFalse => exact he.put hb

theorem meet (he : Entered listed slots q) (ha : a.node ∈ listed) (hb : b.node ∈ listed) :
    Entered listed (a :: b :: slots) q where
  required := he.required
  nodes := by simpa [ha, hb] using he.nodes
  same p p' h hne := by simp [he.same p p' h hne]
  source p p' h := by simp [he.source p p' h]

theorem union (he : Entered listed slots q) (ha : a ∈ slots) (hb : b ∈ slots) :
    Entered listed slots { q with required := q.required.union a b } where
  required := he.required.union
  nodes := he.nodes
  same p p' h hne := by
    rcases (SlotClasses.same_union he.required).mp h with h | ⟨h, -⟩ | ⟨h, -⟩
    · exact he.same p p' h hne
    · exact he.mem_of_same (SlotClasses.same_symm he.required h) ha
    · exact he.mem_of_same (SlotClasses.same_symm he.required h) hb
  source := he.source

end Entered

-- The equality is one of those stated, between slots of nodes that are not later than the node it stands at.
structure Scoped (order : List Nat) (q : Equalities) (n : Nat) (l r : Slot) : Prop where
  same  : q.stated.same l r = true
  ne    : l ≠ r
  left  : order.idxOf l.node ≤ order.idxOf n
  right : order.idxOf r.node ≤ order.idxOf n

structure Sound (s : Schema) (g : QueryGraph) (order listed : List Nat) (q : Equalities) : Prop where
  nodes     : q.conditions.map Prod.fst = listed.reverse.filter (!g.isVirtual ·)
  latest    : listed.Pairwise fun n m => order.idxOf m ≤ order.idxOf n
  required  : q.required.Partition
  stated    : q.stated.Partition
  forces    : ∀ a b, q.required.same a b = true → g.Forces s a b
  requires  : ∀ a b, q.stated.same a b = true → q.required.same a b = true
  real      : ∀ a b, q.stated.same a b = true → a ≠ b → g.isVirtual a.node = false
  collected : ∀ a b, q.stated.same a b = true → EqvGen q.Collected a b
  placed    : ∀ n a b, q.StatesAt n a b → Scoped order q n a b

namespace Sound

theorem mem_nodes (hq : Sound s g order listed q) :
    n ∈ q.conditions.map Prod.fst ↔ n ∈ listed ∧ g.isVirtual n = false := by
  simp [hq.nodes]

theorem real_of_same (hq : Sound s g order listed q) (h : q.stated.same a b = true) (ha : g.isVirtual a.node = false) :
    g.isVirtual b.node = false := by
  by_cases hab : b = a
  case pos => exact hab ▸ ha
  case neg => exact hq.real b a (SlotClasses.same_symm hq.stated h) hab

protected theorem none : Sound s g order [] none where
  nodes := rfl
  latest := .nil
  required := SlotClasses.partition_nil
  stated := SlotClasses.partition_nil
  forces a b h := SlotClasses.eq_of_same_nil h ▸ .refl _
  requires _ _ h := h
  real a b h hne := absurd (SlotClasses.eq_of_same_nil h) hne
  collected a b h := SlotClasses.eq_of_same_nil h ▸ .refl _
  placed n a b h := by simp [StatesAt, none] at h

theorem opened (hq : Sound s g order listed q) (hn : ∀ m ∈ listed, order.idxOf m ≤ order.idxOf n) :
    Sound s g order (n :: listed) (opened g n q) := by
  constructor
  case nodes =>
    unfold Equalities.opened
    split
    case isTrue hv => simp [hq.nodes, hv]
    case isFalse hv => simp [hq.nodes, hv]
  case latest => exact List.pairwise_cons.mpr ⟨hn, hq.latest⟩
  case required => simpa using hq.required
  case stated => simpa using hq.stated
  case forces => simpa using hq.forces
  case requires => simpa using hq.requires
  case real => simpa using hq.real
  case collected =>
    intro a b h
    rw [stated_opened] at h
    exact Closure.of_le (fun a b ⟨m, h⟩ => .rel _ _ ⟨m, statesAt_opened.mpr h⟩) (hq.collected a b h)
  case placed =>
    intro m a b h
    have hplaced := hq.placed m a b (statesAt_opened.mp h)
    exact { hplaced with same := by simpa using hplaced.same }

theorem withSource (hq : Sound s g order listed q) : Sound s g order listed { q with source } :=
  { hq with placed := fun n a b h => { hq.placed n a b h with } }

theorem require (hq : Sound s g order listed q) (hab : g.Forces s a b) :
    Sound s g order listed { q with required := q.required.union a b } :=
  { hq with
    required := hq.required.union
    forces := fun _ _ => SlotClasses.of_same_union hq.required (EqvGen.is_equivalence _) hq.forces hab
    requires := fun p p' h => SlotClasses.same_union_of_same hq.required (hq.requires p p' h)
    placed := fun n a b h => { hq.placed n a b h with } }

-- An equality is stated at a node, and the classes of its two sides become one.
theorem union_state {a b : Slot} (hq : Sound s g order listed q) (hab : q.required.same a b = true)
    (hnew : ¬q.stated.same a b = true) (ha : g.isVirtual a.node = false) (hb : g.isVirtual b.node = false)
    (hlr : (l = a ∧ r = b) ∨ (l = b ∧ r = a)) (hn : n ∈ q.conditions.map Prod.fst)
    (hl : order.idxOf l.node ≤ order.idxOf n) (hr : order.idxOf r.node ≤ order.idxOf n) :
    Sound s g order listed ({ q with stated := q.stated.union a b }.state n l r) := by
  have hne : a ≠ b := fun h => hnew (h ▸ SlotClasses.same_refl)
  have hstated : (q.stated.union a b).same l r = true := by
    have h : (q.stated.union a b).same a b = true := SlotClasses.same_union_self hq.stated
    rcases hlr with ⟨rfl, rfl⟩ | ⟨rfl, rfl⟩
    case inl => exact h
    case inr => exact SlotClasses.same_symm hq.stated.union h
  have hcollected : EqvGen ({ q with stated := q.stated.union a b }.state n l r).Collected a b := by
    have h : EqvGen ({ q with stated := q.stated.union a b }.state n l r).Collected l r :=
      .rel _ _ (collected_state.mpr (.inr ⟨rfl, rfl, hn⟩))
    rcases hlr with ⟨rfl, rfl⟩ | ⟨rfl, rfl⟩
    case inl => exact h
    case inr => exact .symm _ _ h
  constructor
  case nodes => rw [map_fst_state, ← hq.nodes]
  case latest => exact hq.latest
  case required => exact hq.required
  case stated => exact hq.stated.union
  case forces => exact hq.forces
  case requires =>
    exact fun _ _ => SlotClasses.of_same_union hq.stated (SlotClasses.equivalence hq.required) hq.requires hab
  case real =>
    intro p p' h hpp
    rcases (SlotClasses.same_union hq.stated).mp h with h | ⟨h, -⟩ | ⟨h, -⟩
    · exact hq.real p p' h hpp
    · exact hq.real_of_same (SlotClasses.same_symm hq.stated h) ha
    · exact hq.real_of_same (SlotClasses.same_symm hq.stated h) hb
  case collected =>
    refine fun _ _ => SlotClasses.of_same_union hq.stated (EqvGen.is_equivalence _) (fun p p' h => ?_) hcollected
    exact Closure.of_le (fun _ _ h => .rel _ _ (collected_state.mpr (.inl h))) (hq.collected p p' h)
  case placed =>
    intro m p p' h
    rcases statesAt_state.mp h with h | ⟨rfl, rfl, rfl, -⟩
    · have hplaced := hq.placed m p p' h
      exact { hplaced with same := SlotClasses.same_union_of_same hq.stated hplaced.same }
    · refine ⟨hstated, ?_, hl, hr⟩
      rcases hlr with ⟨rfl, rfl⟩ | ⟨rfl, rfl⟩
      case inl => exact hne
      case inr => exact hne.symm

end Sound

-- The slot has been met, at a node that is not virtual.
def Met (g : QueryGraph) (slots : List Slot) (a : Slot) : Prop :=
  a ∈ slots ∧ g.isVirtual a.node = false

theorem Met.of_same (hq : Sound s g order listed q) (he : Entered listed slots q) (h : q.stated.same a b = true)
    (ha : Met g slots a) : Met g slots b :=
  ⟨he.mem_of_same (hq.requires a b h) ha.1, hq.real_of_same h ha.2⟩

theorem Met.mem_nodes (hq : Sound s g order listed q) (he : Entered listed slots q) (ha : Met g slots a) :
    a.node ∈ q.conditions.map Prod.fst :=
  hq.mem_nodes.mpr ⟨he.nodes a ha.1, ha.2⟩

-- What holds after some comparisons of a slot: one that is stated to be equal to it stands in its place.
structure Underway (s : Schema) (g : QueryGraph) (order listed : List Nat) (slots : List Slot) (q : Equalities)
    (start : Slot) (r : Equalities × Slot) : Prop where
  sound    : Sound s g order listed r.1
  entered  : Entered listed slots r.1
  required : r.1.required = q.required
  stated   : ∀ a b, q.stated.same a b = true → r.1.stated.same a b = true
  up       : r.1.stated.same start r.2 = true

-- The slots that stand for two that are not stated to be equal are not stated to be equal either.
theorem unstated_roots (hq : q.stated.Partition) (h : ¬q.stated.same a b = true) :
    ¬q.stated.same (q.root a) (q.root b) = true := by
  intro hroots
  have hb : q.stated.same (q.root b) b = true := SlotClasses.same_symm hq (same_root hq)
  exact h (SlotClasses.same_trans hq (same_root hq) (SlotClasses.same_trans hq hroots hb))

theorem Underway.requires_up (hu : Underway s g order listed slots q start (q', up))
    (hc : q.required.same start candidate = true) : q'.required.same up candidate = true := by
  have ⟨hq, _, hrequired, _, hsame⟩ := hu
  have hstart : q'.required.same up start = true := SlotClasses.same_symm hq.required (hq.requires _ _ hsame)
  exact SlotClasses.same_trans hq.required hstart (hrequired ▸ hc)

theorem Underway.requires_roots (hu : Underway s g order listed slots q start (q', up))
    (hc : q.required.same start candidate = true) :
    q'.required.same (q'.root up) (q'.root candidate) = true := by
  have ⟨hq, _, _, _, _⟩ := hu
  have hroot : ∀ a, q'.required.same a (q'.root a) = true := fun a => hq.requires _ _ (same_root hq.stated)
  have hup : q'.required.same (q'.root up) up = true := SlotClasses.same_symm hq.required (hroot up)
  exact SlotClasses.same_trans hq.required hup
    (SlotClasses.same_trans hq.required (hu.requires_up hc) (hroot candidate))

theorem Underway.compared {q' : Equalities} {r : Equalities × Slot}
    (hu : Underway s g order listed slots q start (q', up)) (hs : Met g slots start)
    (hc : q.required.same start candidate = true) (h : Compared g order q' up candidate r) :
    Underway s g order listed slots q start r := by
  have ⟨hq, he, hrequired, hstated, hsame⟩ := hu
  cases h
  case near | virtual | stated => exact hu
  case new l r source _ hv hnew hlr hle hsource =>
    have hup : Met g slots up := hs.of_same hq he hsame
    have hroot : Met g slots (q'.root up) := hup.of_same hq he (same_root hq.stated)
    have hcandidate : Met g slots candidate := ⟨he.mem_of_same (hrequired ▸ hc) hs.1, hv⟩
    have hother : Met g slots (q'.root candidate) := hcandidate.of_same hq he (same_root hq.stated)
    have hunstated : ¬q'.stated.same (q'.root up) (q'.root candidate) = true := unstated_roots hq.stated hnew
    have hrequires : q'.required.same (q'.root up) (q'.root candidate) = true := hu.requires_roots hc
    have hl : Met g slots l ∧ r ∈ slots := by
      rcases hlr with ⟨rfl, rfl⟩ | ⟨rfl, rfl⟩
      case inl => exact ⟨hother, hroot.1⟩
      case inr => exact ⟨hroot, hother.1⟩
    have hentered : Entered listed slots { q' with source } := by
      rcases hsource with rfl | rfl
      case inl => exact he
      case inr => exact he.put hl.2
    constructor
    case sound =>
      have hnode : l.node ∈ q'.conditions.map Prod.fst := hl.1.mem_nodes hq he
      have hq : Sound s g order listed { q' with source } := hq.withSource
      exact hq.union_state hrequires hunstated hroot.2 hother.2 hlr.symm hnode (Nat.le_refl _) hle
    case entered => exact { hentered with }
    case required => exact hrequired
    case stated => exact fun a b h => SlotClasses.same_union_of_same hq.stated (hstated a b h)
    case up =>
      exact SlotClasses.same_union_of_same hq.stated (SlotClasses.same_trans hq.stated hsame (same_root hq.stated))

theorem Compares.underway {r : Equalities × Slot} (hq : Sound s g order listed q) (he : Entered listed slots q)
    (hs : Met g slots start) (h : Compares g order q start done r) : Underway s g order listed slots q start r := by
  induction h
  case nil => exact ⟨hq, he, rfl, fun _ _ => id, SlotClasses.same_refl⟩
  case cons hc hcompared ih => exact ih.compared hs hc hcompared

-- What holds after each step.
structure Invariant (s : Schema) (g : QueryGraph) (order listed : List Nat) (slots : List Slot) (q : Equalities)
    (pending : List Slot) : Prop where
  sound   : Sound s g order listed q
  entered : Entered listed slots q
  pending : ∀ a ∈ pending, a ∈ slots

theorem Invariant.take {pair : ColumnRef × ColumnRef} {r : Equalities × List Slot}
    (hi : Invariant s g order (n :: listed) slots q pending) (hx : g.HasEdge x) (hp : pair ∈ (s.key x.key).pairs)
    (hn : x.source = n ∨ x.target = n) (hs : x.source ∈ n :: listed) (ht : x.target ∈ n :: listed)
    (h : Taken g n q pending ⟨x.source, pair.1⟩ ⟨x.target, pair.2⟩ r) :
    Invariant s g order (n :: listed) (⟨x.source, pair.1⟩ :: ⟨x.target, pair.2⟩ :: slots) r.1 r.2 := by
  have ⟨hq, he, hpending⟩ := hi
  have hmet := he.meet (a := ⟨x.source, pair.1⟩) (b := ⟨x.target, pair.2⟩) hs ht
  have hle : ∀ m ∈ n :: listed, order.idxOf m ≤ order.idxOf n := by
    simpa using (List.pairwise_cons.mp hq.latest).1
  have hforces : g.Forces s ⟨x.source, pair.1⟩ ⟨x.target, pair.2⟩ := .rel _ _ ⟨x, hx, rfl, rfl, hp⟩
  have hpending' : ∀ a ∈ pending, a ∈ (⟨x.source, pair.1⟩ : Slot) :: ⟨x.target, pair.2⟩ :: slots :=
    fun a ha => List.mem_cons_of_mem _ (List.mem_cons_of_mem _ (hpending a ha))
  generalize ha : (⟨x.source, pair.1⟩ : Slot) = a at *
  generalize hb : (⟨x.target, pair.2⟩ : Slot) = b at *
  cases h
  case known => exact ⟨hq, hmet, hpending'⟩
  case stated hnew hva hvb =>
    have hnode : n ∈ q.conditions.map Prod.fst := by
      refine hq.mem_nodes.mpr ⟨List.mem_cons_self, ?_⟩
      rcases hn with rfl | rfl
      case inl => simpa [← ha] using hva
      case inr => simpa [← hb] using hvb
    have hstates := (hq.require hforces).union_state (SlotClasses.same_union_self hq.required)
      (fun h => hnew (hq.requires a b h)) hva hvb (.inl ⟨rfl, rfl⟩) hnode (ha ▸ hle _ hs) (hb ▸ hle _ ht)
    have hunion := (hmet.union (a := a) (b := b) (by simp) (by simp)).sourced (g := g) (a := a) (b := b) (by simp)
    exact ⟨hstates.withSource, { hunion with }, hpending'⟩
  case entered hnew hv =>
    have hunion := (hmet.union (a := a) (b := b) (by simp) (by simp)).sourced (g := g) (a := a) (b := b) (by simp)
    refine ⟨(hq.require hforces).withSource, { hunion with }, fun p hp => ?_⟩
    rcases mem_enter.mp hp with hp | rfl | rfl
    · exact hpending' p hp
    · exact List.mem_cons_self
    · exact List.mem_cons_of_mem _ List.mem_cons_self

theorem Reached.invariant (h : Reached s g order listed slots q pending) :
    Invariant s g order listed slots q pending := by
  induction h
  case start =>
    refine ⟨.none, ⟨SlotClasses.partition_nil, by simp, fun a b h hne => ?_, by simp [none]⟩, by simp⟩
    exact absurd (SlotClasses.eq_of_same_nil h) hne
  case visit q n _ hn ih =>
    have ⟨hq, he, hpending⟩ := ih
    refine ⟨hq.opened hn, ?_, hpending⟩
    constructor
    case required => simpa using he.required
    case nodes => exact fun a ha => List.mem_cons_of_mem _ (he.nodes a ha)
    case same => simpa using he.same
    case source => simpa using he.source
  case take hx hp hn hs ht h ih => exact ih.take hx hp hn hs ht h
  case skip ih => exact ⟨ih.sound, ih.entered, fun a ha => ih.pending a (List.mem_cons_of_mem _ ha)⟩
  case repair hv hc _ ih =>
    have hu := hc.underway ih.sound ih.entered ⟨ih.pending _ List.mem_cons_self, hv⟩
    exact ⟨hu.sound, hu.entered, fun a ha => ih.pending a (List.mem_cons_of_mem _ ha)⟩

end Subplans.Equalities
