import Subplans.Proofs.Equalities.Printed

/-!
When the SQL text of a query graph says all that the graph forces.

In a graph that is `Straight` every slot that is met at a virtual node is compared with all others that it has to be
equal to, and no equality has both sides at one node, so that none stands at the first table, where equalities are
not printed (`Straight.prints`). Elsewhere equalities get lost: those that are collected for the first table do.
-/

namespace Subplans

open QueryGraph Relation

variable {s : Schema} {g : QueryGraph} {order listed : List Nat} {slots pending done : List Slot} {q : Equalities}
  {n : Nat} {x : Edge} {a b c l r u p p' start up candidate : Slot}

-- Only nodes that are not virtual refer to others, and no slot is forced to equal another one of its node, unless it
-- equals no slot of a virtual node.
structure QueryGraph.Straight (s : Schema) (g : QueryGraph) : Prop where
  source : ∀ x, g.HasEdge x → g.isVirtual x.source = false
  loop   : ∀ a b, g.Relates s a b → a.node = b.node → a = b
  apart  : ∀ a b c, g.isVirtual a.node = false → g.Forces s a b → a.node = b.node → g.Forces s a c →
    g.isVirtual c.node = true → a = b

namespace Equalities

-- A slot with which this one is to be compared still waits for that.
def Awaits (g : QueryGraph) (q : Equalities) (pending : List Slot) (a : Slot) : Prop :=
  ∃ u ∈ pending, g.isVirtual u.node = false ∧ q.required.same u a = true

theorem Awaits.of_same (hq : q.required.Partition) (h : Awaits g q pending a) (hab : q.required.same a b = true) :
    Awaits g q pending b :=
  have ⟨u, hu, hv, hua⟩ := h
  ⟨u, hu, hv, SlotClasses.same_trans hq hua hab⟩

theorem Awaits.grows {q' : Equalities} {pending' : List Slot} (h : Awaits g q pending a) (hq : Grows q q')
    (hp : ∀ u ∈ pending, u ∈ pending') : Awaits g q' pending' a :=
  have ⟨u, hu, hv, hua⟩ := h
  ⟨u, hp u hu, hv, hq u a hua⟩

-- No equality has both sides at one node.
def Apart (q : Equalities) : Prop :=
  ∀ n a b, q.StatesAt n a b → a.node ≠ b.node

theorem Apart.state (h : Apart q) (hlr : l.node ≠ r.node) : Apart (q.state n l r) := by
  intro m a b hab
  rcases statesAt_state.mp hab with hab | ⟨-, rfl, rfl, -⟩
  · exact h m a b hab
  · exact hlr

-- What has to be equal is stated to be or waits for comparison, and only slots that equal one of a virtual node wait.
structure Complete (g : QueryGraph) (q : Equalities) (pending : List Slot) : Prop where
  stated  : ∀ a b, g.isVirtual a.node = false → g.isVirtual b.node = false → q.required.same a b = true →
    q.stated.same a b = true ∨ Awaits g q pending a
  pending : ∀ a ∈ pending, ∃ c, g.isVirtual c.node = true ∧ q.required.same a c = true
  apart   : Apart q

-- When the classes of two slots become one, a slot of each has been stated to be equal to its side, unless one waits.
theorem Complete.settle {q' : Equalities} (hc : Complete g q pending) (hgrows : Grows q q')
    (hkeeps : ∀ p p', q.stated.same p p' = true → q'.stated.same p p' = true) (hrequired : q'.required.Partition)
    (hstated : q'.stated.Partition) (hab : q'.required.same a b = true) (hab' : q'.stated.same a b = true)
    (ha : g.isVirtual a.node = false) (hb : g.isVirtual b.node = false) (hp : g.isVirtual p.node = false)
    (hp' : g.isVirtual p'.node = false) (hpa : q.required.same p a = true) (hbp : q.required.same b p' = true) :
    q'.stated.same p p' = true ∨ Awaits g q' pending p := by
  rcases hc.stated p a hp ha hpa with hpa' | hwait
  case inr => exact .inr (hwait.grows hgrows fun _ => id)
  rcases hc.stated b p' hb hp' hbp with hbp' | hwait
  case inr =>
    have hpb : q'.required.same p b = true := SlotClasses.same_trans hrequired (hgrows p a hpa) hab
    have hwait : Awaits g q' pending b := hwait.grows hgrows fun _ => id
    exact .inr (hwait.of_same hrequired (SlotClasses.same_symm hrequired hpb))
  case inl =>
    have hpb : q'.stated.same p b = true := SlotClasses.same_trans hstated (hkeeps p a hpa') hab'
    exact .inl (SlotClasses.same_trans hstated hpb (hkeeps b p' hbp'))

theorem Complete.take_stated (hi : Invariant s g order listed slots q pending) (hc : Complete g q pending)
    (hab : a.node ≠ b.node) (ha : g.isVirtual a.node = false) (hb : g.isVirtual b.node = false) :
    Complete g ({ q with required := q.required.union a b, stated := q.stated.union a b }.state n a b) pending := by
  have ⟨hq, _, _⟩ := hi
  let q' : Equalities := { q with required := q.required.union a b, stated := q.stated.union a b }.state n a b
  have hgrows : Grows q q' := fun _ _ => SlotClasses.same_union_of_same hq.required
  have hkeeps : ∀ p p', q.stated.same p p' = true → q'.stated.same p p' = true :=
    fun _ _ => SlotClasses.same_union_of_same hq.stated
  have hrequired : q'.required.same a b = true := SlotClasses.same_union_self hq.required
  have hstated : q'.stated.same a b = true := SlotClasses.same_union_self hq.stated
  constructor
  case stated =>
    intro p p' hp hp' h
    rcases (SlotClasses.same_union hq.required).mp h with h | ⟨hpa, hbp⟩ | ⟨hpb, hap⟩
    · exact (hc.stated p p' hp hp' h).imp (hkeeps p p') fun h => h.grows hgrows fun _ => id
    · exact hc.settle hgrows hkeeps hq.required.union hq.stated.union hrequired hstated ha hb hp hp' hpa hbp
    · exact hc.settle hgrows hkeeps hq.required.union hq.stated.union
        (SlotClasses.same_symm hq.required.union hrequired) (SlotClasses.same_symm hq.stated.union hstated)
        hb ha hp hp' hpb hap
  case pending =>
    intro u hu
    have ⟨c, hv, huc⟩ := hc.pending u hu
    exact ⟨c, hv, hgrows u c huc⟩
  case apart => exact Apart.state (q := { q with required := _, stated := _ }) hc.apart hab

theorem Complete.take_entered (hi : Invariant s g order listed slots q pending) (hc : Complete g q pending)
    (ha : g.isVirtual a.node = false) (hb : g.isVirtual b.node = true) :
    Complete g { q with required := q.required.union a b } (enter pending a b) := by
  have ⟨hq, _, _⟩ := hi
  have hgrows : ∀ p p', q.required.same p p' = true → (q.required.union a b).same p p' = true :=
    fun _ _ => SlotClasses.same_union_of_same hq.required
  have hab : (q.required.union a b).same a b = true := SlotClasses.same_union_self hq.required
  have hmem : ∀ u ∈ pending, u ∈ enter pending a b := fun u hu => mem_enter.mpr (.inl hu)
  -- The referencing slot waits, on behalf of all that it has to be equal to now.
  have hwaits : ∀ p, (q.required.union a b).same a p = true →
      Awaits g { q with required := q.required.union a b } (enter pending a b) p :=
    fun p h => ⟨a, mem_enter.mpr (.inr (.inl rfl)), ha, h⟩
  constructor
  case stated =>
    intro p p' hp hp' h
    rcases (SlotClasses.same_union hq.required).mp h with h | ⟨hpa, -⟩ | ⟨hpb, -⟩
    · exact (hc.stated p p' hp hp' h).imp_right fun h => h.grows hgrows hmem
    · exact .inr (hwaits p (SlotClasses.same_symm hq.required.union (hgrows p a hpa)))
    · have hbp := SlotClasses.same_symm hq.required.union (hgrows p b hpb)
      exact .inr (hwaits p (SlotClasses.same_trans hq.required.union hab hbp))
  case pending =>
    intro u hu
    rcases mem_enter.mp hu with hu | rfl | rfl
    · have ⟨c, hv, huc⟩ := hc.pending u hu
      exact ⟨c, hv, hgrows u c huc⟩
    · exact ⟨b, hb, hab⟩
    · exact ⟨u, hb, SlotClasses.same_refl⟩
  case apart => exact hc.apart

theorem Complete.take {r : Equalities × List Slot} (hi : Invariant s g order listed slots q pending)
    (hc : Complete g q pending) (hg : g.Straight s) (hab : g.Relates s a b) (ha : g.isVirtual a.node = false)
    (h : Taken g n q pending a b r) : Complete g r.1 r.2 := by
  cases h
  case known => exact hc
  case stated hnew _ hb =>
    have hne : a.node ≠ b.node := fun h => hnew (hg.loop a b hab h ▸ SlotClasses.same_refl)
    have h := hc.take_stated (n := n) hi hne ha hb
    exact { h with }
  case entered hv =>
    have h := hc.take_entered hi ha (hv.resolve_left (by simp [ha]))
    exact { h with }

-- The slots that stand for two that are not stated to be equal are at different nodes: at one node they would be the
-- same, as their class reaches a virtual node.
theorem Underway.apart_roots {q' : Equalities} (hu : Underway s g order listed slots q start (q', up))
    (hg : g.Straight s) (hup : g.isVirtual up.node = false) (hcandidate : q.required.same start candidate = true)
    (hnew : ¬q'.stated.same up candidate = true) (hc : q.required.same start c = true)
    (hv : g.isVirtual c.node = true) : (q'.root up).node ≠ (q'.root candidate).node := by
  have ⟨hq, _, _, _, _⟩ := hu
  have hroot : q'.stated.same up (q'.root up) = true := same_root hq.stated
  have hreal : g.isVirtual (q'.root up).node = false := hq.real_of_same hroot hup
  have hvirtual : q'.required.same (q'.root up) c = true := by
    have hrequires := SlotClasses.same_symm hq.required (hq.requires _ _ hroot)
    exact SlotClasses.same_trans hq.required hrequires (hu.requires_up hc)
  have hforces : g.Forces s (q'.root up) (q'.root candidate) := hq.forces _ _ (hu.requires_roots hcandidate)
  intro h
  have heq : q'.root up = q'.root candidate := hg.apart _ _ c hreal hforces h (hq.forces _ _ hvirtual) hv
  exact unstated_roots hq.stated hnew (heq ▸ SlotClasses.same_refl)

-- The slot is stated to be equal to those that it has been compared with.
theorem Compares.complete {r : Equalities × Slot} (hg : g.Straight s) (hq : Sound s g order listed q)
    (he : Entered listed slots q) (hs : Met g slots start) (hv : g.isVirtual c.node = true)
    (hc : q.required.same start c = true) (hapart : Apart q) (h : Compares g order q start done r) :
    Apart r.1 ∧ ∀ p ∈ done, g.isVirtual p.node = false → r.1.stated.same start p = true := by
  induction h
  case nil => exact ⟨hapart, by simp⟩
  case cons q' up candidate r hcompares hcandidate hcompared ih =>
    have ⟨hapart', hdone⟩ := ih
    have hu : Underway s g order listed slots q start (q', up) := hcompares.underway hq he hs
    have ⟨hq', _, _, _, hsame⟩ := hu
    have hup : g.isVirtual up.node = false := hq'.real_of_same hsame hs.2
    cases hcompared
    case near hnode =>
      have hforces : g.Forces s up candidate := hq'.forces _ _ (hu.requires_up hcandidate)
      have heq : up = candidate :=
        hg.apart up candidate c hup hforces hnode.symm (hq'.forces _ _ (hu.requires_up hc)) hv
      exact ⟨hapart', List.forall_mem_cons.mpr ⟨fun _ => heq ▸ hsame, hdone⟩⟩
    case virtual hvirtual =>
      exact ⟨hapart', List.forall_mem_cons.mpr ⟨fun h => by simp [hvirtual] at h, hdone⟩⟩
    case stated hstated =>
      exact ⟨hapart', List.forall_mem_cons.mpr ⟨fun _ => SlotClasses.same_trans hq'.stated hsame hstated, hdone⟩⟩
    case new l r source _ _ hnew hlr _ _ =>
      have hne : (q'.root up).node ≠ (q'.root candidate).node :=
        hu.apart_roots hg hup hcandidate hnew hc hv
      have hlr_ne : l.node ≠ r.node := by
        rcases hlr with ⟨rfl, rfl⟩ | ⟨rfl, rfl⟩
        case inl => exact hne.symm
        case inr => exact hne
      have hgrows : ∀ p p', q'.stated.same p p' = true →
          (q'.stated.union (q'.root up) (q'.root candidate)).same p p' = true :=
        fun _ _ => SlotClasses.same_union_of_same hq'.stated
      have hstart : q'.stated.same start (q'.root up) = true :=
        SlotClasses.same_trans hq'.stated hsame (same_root hq'.stated)
      have hlast : (q'.stated.union (q'.root up) (q'.root candidate)).same start candidate = true :=
        (SlotClasses.same_union hq'.stated).mpr
          (.inr (.inl ⟨hstart, SlotClasses.same_symm hq'.stated (same_root hq'.stated)⟩))
      refine ⟨Apart.state (q := { q' with stated := _, source }) hapart' hlr_ne, ?_⟩
      exact List.forall_mem_cons.mpr ⟨fun _ => hlast, fun p hp hvp => hgrows _ _ (hdone p hp hvp)⟩

theorem Complete.repair {r : Equalities × Slot} (hg : g.Straight s)
    (hi : Invariant s g order listed slots q (start :: pending)) (hc : Complete g q (start :: pending))
    (hv : g.isVirtual start.node = false) (h : Compares g order q start done r)
    (hall : ∀ c, q.required.same start c = true → c ∈ done) : Complete g r.1 pending := by
  have ⟨hq, he, hmem⟩ := hi
  have hs : Met g slots start := ⟨hmem _ List.mem_cons_self, hv⟩
  have ⟨c, hvc, hsc⟩ := hc.pending start List.mem_cons_self
  have ⟨hapart, hdone⟩ := h.complete hg hq he hs hvc hsc hc.apart
  have ⟨hq', _, hrequired, hstated, _⟩ := h.underway hq he hs
  have hgrows : Grows q r.1 := fun _ _ h => hrequired.symm ▸ h
  constructor
  case stated =>
    intro p p' hp hp' hpp
    rw [hrequired] at hpp
    rcases hc.stated p p' hp hp' hpp with h | ⟨u, hu, hvu, hup⟩
    · exact .inl (hstated p p' h)
    cases hu
    case head =>
      have hsp : r.1.stated.same start p = true := hdone p (hall p hup) hp
      have hsp' : r.1.stated.same start p' = true :=
        hdone p' (hall p' (SlotClasses.same_trans hq.required hup hpp)) hp'
      exact .inl (SlotClasses.same_trans hq'.stated (SlotClasses.same_symm hq'.stated hsp) hsp')
    case tail hu => exact .inr ⟨u, hu, hvu, hgrows u p hup⟩
  case pending =>
    intro u hu
    have ⟨c, hv, huc⟩ := hc.pending u (List.mem_cons_of_mem _ hu)
    exact ⟨c, hv, hgrows u c huc⟩
  case apart => exact hapart

theorem Reached.complete (hg : g.Straight s) (h : Reached s g order listed slots q pending) :
    Complete g q pending := by
  induction h
  case start =>
    refine ⟨fun a b _ _ h => ?_, by simp, by simp [Apart, StatesAt, none]⟩
    exact .inl h
  case visit q n _ _ ih =>
    constructor
    case stated => simpa [Awaits] using ih.stated
    case pending => simp
    case apart => exact fun m a b h => ih.apart m a b (statesAt_opened.mp h)
  case take hr hx hp _ _ _ htaken ih =>
    exact ih.take hr.invariant hg ⟨_, hx, rfl, rfl, hp⟩ (hg.source _ hx) htaken
  case skip hr hv ih =>
    refine ⟨fun a b ha hb hab => ?_, fun u hu => ih.pending u (List.mem_cons_of_mem _ hu), ih.apart⟩
    rcases ih.stated a b ha hb hab with h | ⟨u, hu, hvu, hua⟩
    · exact .inl h
    · cases hu
      case head => simp [hv] at hvu
      case tail hu => exact .inr ⟨u, hu, hvu, hua⟩
  case repair hr hv hcompares hall ih => exact ih.repair hg hr.invariant hv hcompares hall

end Equalities

namespace QueryGraph

namespace Collects

theorem required_of_forces (h : g.Collects s slots q) (hg : g.Straight s) (hab : g.Forces s a b) :
    q.required.same a b = true := by
  have hequiv := SlotClasses.equivalence h.sound.required
  refine hequiv.eqvGen_iff.mp (Closure.of_le (fun a b hrel => .rel _ _ ?_) hab)
  by_cases hnode : a.node = b.node
  case pos => exact hg.loop a b hrel hnode ▸ SlotClasses.same_refl
  case neg =>
    obtain ⟨x, hx, hs, ht, hp⟩ := hrel
    have listed : ∀ n, g.contains n = true → n ∈ g.visitOrder.reverse :=
      fun n hn => List.mem_reverse.mpr (h.linked.mem_visitOrder.mpr hn)
    have ⟨e, he⟩ := hx
    have ⟨hsource, htarget⟩ := h.linked.ends e x he
    have htaken := h.covers x hx (listed _ hsource) (listed _ htarget) (by rwa [hs, ht])
    have hsame := htaken _ hp
    obtain ⟨na, ca⟩ := a
    obtain ⟨nb, cb⟩ := b
    dsimp only at hs ht
    subst hs ht
    exact hsame

theorem stated_of_forces (h : g.Collects s slots q) (hg : g.Straight s) (ha : g.Real a) (hb : g.Real b)
    (hab : g.Forces s a b) : q.stated.same a b = true := by
  have hcomplete := h.reached.complete hg
  have hva := (mem_realNodes.mp ha).2
  have hvb := (mem_realNodes.mp hb).2
  rcases hcomplete.stated a b hva hvb (h.required_of_forces hg hab) with h | ⟨_, hu, _⟩
  · exact h
  · cases hu

-- The first table has no equalities: their sides would both be columns of it.
theorem mem_onEqualities (h : g.Collects s slots q) (hapart : q.Apart) (hab : q.Collected a b) :
    (a, b) ∈ onEqualities q.conditions := by
  obtain ⟨n, eqs, hv, hmem⟩ := hab
  have hne : a.node ≠ b.node := hapart n a b ⟨eqs, hv, hmem⟩
  obtain ⟨i, hi⟩ := List.getElem?_of_mem hv
  have ⟨_, _, _, hleft, hright⟩ := h.justified hi hmem
  rw [onEqualities]
  cases hconditions : q.conditions
  case nil => simp [hconditions] at hv
  case cons first rest =>
    rw [hconditions] at hi hleft hright
    cases i
    case zero =>
      have ha : a.node = first.1 := by simpa using hleft
      have hb : b.node = first.1 := by simpa using hright
      exact absurd (ha.trans hb.symm) hne
    case succ i =>
      rw [List.getElem?_cons_succ] at hi
      exact List.mem_flatMap.mpr ⟨(n, eqs), List.mem_of_getElem? hi, hmem⟩

end Collects

theorem Prints.forces (h : g.Prints s a b) : g.Forces s a b := by
  obtain ⟨tables, hrenders, hab⟩ := h
  refine Closure.of_le (fun l r hlr => ?_) hab
  obtain ⟨⟨n, eqs⟩, hv, hmem⟩ := List.mem_flatMap.mp hlr
  obtain ⟨i, hi⟩ := List.getElem?_of_mem (List.mem_of_mem_tail hv)
  exact (hrenders.justified i n eqs hi _ hmem).forces

theorem Straight.prints (hs : g.Straight s) (hg : g.Linked) (ha : g.Real a) (hb : g.Real b) (hab : g.Forces s a b) :
    g.Prints s a b := by
  obtain ⟨slots, q, _, heq, h⟩ := hg.collects_equalities s
  obtain ⟨tables, hrenders⟩ := sql_sound s hg
  cases heq.symm.trans hrenders.stored
  have hcollected := h.sound.collected a b (h.stated_of_forces hs ha hb hab)
  have hapart := (h.reached.complete hs).apart
  exact ⟨q.conditions, hrenders, Closure.of_le (fun l r hlr => .rel _ _ (h.mem_onEqualities hapart hlr)) hcollected⟩

-- Where no two columns of a node are forced to be equal, nothing is lost.
theorem Linked.straight (hg : g.Linked) (hsource : ∀ x, g.HasEdge x → g.isVirtual x.source = false)
    (hcolumns : ∀ a b, g.Real a → g.Forces s a b → a.node = b.node → a.column = b.column) : g.Straight s := by
  have hends : ∀ a b, g.Relates s a b → g.contains a.node = true ∧ g.contains b.node = true := by
    rintro a b ⟨x, ⟨e, he⟩, hs, ht, -⟩
    exact hs ▸ ht ▸ hg.ends e x he
  have hreal : ∀ a, g.contains a.node = true → g.isVirtual a.node = false → g.Real a :=
    fun a hc hv => QueryGraph.mem_realNodes.mpr ⟨(hg.mem_nodes _).mpr hc, hv⟩
  have heq : ∀ a b, g.Real a → g.Forces s a b → a.node = b.node → a = b := by
    rintro ⟨n, c⟩ ⟨m, d⟩ ha hab rfl
    rw [Slot.mk.injEq]
    exact ⟨rfl, hcolumns _ _ ha hab rfl⟩
  constructor
  case source => exact hsource
  case loop =>
    intro a b hab hnode
    have ⟨x, hx, hs, _⟩ := hab
    exact heq a b (hreal a (hends a b hab).1 (hs ▸ hsource x hx)) (.rel _ _ hab) hnode
  case apart =>
    intro a b c ha hab hnode hac hc
    rcases Closure.eq_or hends hac with rfl | ⟨hcontains, -⟩
    case inl => simp [hc] at ha
    case inr => exact heq a b (hreal a hcontains ha) hab hnode

theorem sql_complete (hg : g.Linked) (hsource : ∀ x, g.HasEdge x → g.isVirtual x.source = false)
    (hcolumns : ∀ a b, g.Real a → g.Forces s a b → a.node = b.node → a.column = b.column)
    (ha : g.Real a) (hb : g.Real b) : g.Prints s a b ↔ g.Forces s a b :=
  ⟨Prints.forces, (hg.straight hsource hcolumns).prints hg ha hb⟩

-- The link and the information refer to one film, each once.
def linkedOnce : QueryGraph :=
  filmGraph true [(0, 0), (1, 2)]

theorem traverse_linkedOnce : linkedOnce.traverse = [(0, []), (2, [0]), (1, [1])] := by
  have hnodes : linkedOnce.nodes = [0, 1, 2] := by decide
  have hlength : linkedOnce.slots.length = 3 := by decide
  have hneighbors : linkedOnce.neighbors 0 = [2] ∧ linkedOnce.neighbors 1 = [2] ∧ linkedOnce.neighbors 2 = [0, 1] := by
    decide
  have hedges : linkedOnce.edgesTo [0] 2 = [0] ∧ linkedOnce.edgesTo [2, 0] 1 = [1] := by decide
  simp [traverse, walkFrom, walk, hnodes, hlength, hneighbors, hedges]

theorem sql_linkedOnce : linkedOnce.sql filmSchema false =
    "SELECT *\nFROM link AS x\n\tJOIN info AS y ON y.film_id = x.film_id;" := by
  have h : linkedOnce.equalities filmSchema = [(0, []), (1, [(⟨1, ⟨2, 0⟩⟩, ⟨0, ⟨1, 0⟩⟩)])] := by
    rw [equalities, traverse_linkedOnce]
    decide +kernel
  rw [sql, fromList, h]
  decide +kernel

theorem sql_complete_linkedOnce : linkedOnce.Linked ∧
    (∀ x, linkedOnce.HasEdge x → linkedOnce.isVirtual x.source = false) ∧
    (∀ a b, linkedOnce.Real a → linkedOnce.Forces filmSchema a b → a.node = b.node → a.column = b.column) ∧
    linkedOnce.Real ⟨0, ⟨1, 0⟩⟩ ∧ linkedOnce.Real ⟨1, ⟨2, 0⟩⟩ ∧
    linkedOnce.sql filmSchema false = "SELECT *\nFROM link AS x\n\tJOIN info AS y ON y.film_id = x.film_id;" ∧
    linkedOnce.Forces filmSchema ⟨0, ⟨1, 0⟩⟩ ⟨1, ⟨2, 0⟩⟩ ∧ linkedOnce.Prints filmSchema ⟨0, ⟨1, 0⟩⟩ ⟨1, ⟨2, 0⟩⟩ := by
  have hg : linkedOnce.Linked := (wellFormed_filmGraph (by decide)).linked
  have hsource : ∀ x, linkedOnce.HasEdge x → linkedOnce.isVirtual x.source = false := by
    have hall : ∀ o ∈ linkedOnce.edges, ∀ x ∈ o, linkedOnce.isVirtual x.source = false := by decide
    exact fun x hx => hall _ (hasEdge_iff_mem.mp hx) x rfl
  -- All slots that are used belong to different nodes.
  have hcolumns : ∀ a b, linkedOnce.Real a → linkedOnce.Forces filmSchema a b → a.node = b.node →
      a.column = b.column := by
    let used : List Slot := [⟨0, ⟨1, 0⟩⟩, ⟨1, ⟨2, 0⟩⟩, ⟨2, ⟨0, 0⟩⟩]
    have hused : ∀ e ∈ linkedOnce.relations filmSchema, e.1 ∈ used ∧ e.2 ∈ used := by decide +kernel
    have hdistinct : ∀ a ∈ used, ∀ b ∈ used, a.node = b.node → a.column = b.column := by decide
    intro a b _ hab hnode
    rcases forces_cases hused hab with rfl | ⟨ha, hb⟩
    case inl => rfl
    case inr => exact hdistinct a ha b hb hnode
  have hx : linkedOnce.Real ⟨0, ⟨1, 0⟩⟩ := by decide
  have hy : linkedOnce.Real ⟨1, ⟨2, 0⟩⟩ := by decide
  have hforces : linkedOnce.Forces filmSchema ⟨0, ⟨1, 0⟩⟩ ⟨1, ⟨2, 0⟩⟩ :=
    forces_of_common_target (t := ⟨2, ⟨0, 0⟩⟩) (by decide +kernel) (by decide +kernel)
  exact ⟨hg, hsource, hcolumns, hx, hy, sql_linkedOnce, hforces, (sql_complete hg hsource hcolumns hx hy).mpr hforces⟩

-- The film is met between the link and the information.
theorem traverse_linkedTwice : linkedTwice.traverse = [(0, []), (2, [0, 2]), (1, [1])] := by
  have hnodes : linkedTwice.nodes = [0, 1, 2] := by decide
  have hlength : linkedTwice.slots.length = 3 := by decide
  have hneighbors : linkedTwice.neighbors 0 = [2, 2] ∧ linkedTwice.neighbors 1 = [2] ∧
    linkedTwice.neighbors 2 = [0, 1, 0] := by decide
  have hedges : linkedTwice.edgesTo [0] 2 = [0, 2] ∧ linkedTwice.edgesTo [2, 0] 1 = [1] := by decide
  simp [traverse, walkFrom, walk, hnodes, hlength, hneighbors, hedges]

-- The two references of the link have to be equal. That is stated, but at the first table.
theorem equalities_linkedTwice : linkedTwice.equalities filmSchema =
    [(0, [(⟨0, ⟨1, 1⟩⟩, ⟨0, ⟨1, 0⟩⟩)]), (1, [(⟨1, ⟨2, 0⟩⟩, ⟨0, ⟨1, 1⟩⟩)])] := by
  rw [equalities, traverse_linkedTwice]
  decide +kernel

theorem sql_linkedTwice : linkedTwice.sql filmSchema false =
    "SELECT *\nFROM link AS x\n\tJOIN info AS y ON y.film_id = x.linked_id;" := by
  rw [sql, fromList, equalities_linkedTwice]
  decide +kernel

theorem not_prints_linkedTwice : linkedTwice.Linked ∧ 0 ∈ linkedTwice.realNodes ∧
    (⟨1, 0⟩ : ColumnRef) ≠ ⟨1, 1⟩ ∧ linkedTwice.Forces filmSchema ⟨0, ⟨1, 0⟩⟩ ⟨0, ⟨1, 1⟩⟩ ∧
    linkedTwice.sql filmSchema false = "SELECT *\nFROM link AS x\n\tJOIN info AS y ON y.film_id = x.linked_id;" ∧
    ¬linkedTwice.Prints filmSchema ⟨0, ⟨1, 0⟩⟩ ⟨0, ⟨1, 1⟩⟩ := by
  have hforces : linkedTwice.Forces filmSchema ⟨0, ⟨1, 0⟩⟩ ⟨0, ⟨1, 1⟩⟩ :=
    forces_of_common_target (t := ⟨2, ⟨0, 0⟩⟩) (by decide +kernel) (by decide +kernel)
  refine ⟨linked_linkedTwice, by decide, by decide, hforces, sql_linkedTwice, fun ⟨tables, hrenders, h⟩ => ?_⟩
  -- The first reference is on neither side of what is printed.
  let sides : List Slot := [⟨1, ⟨2, 0⟩⟩, ⟨0, ⟨1, 1⟩⟩]
  have hsides : ∀ l r, (l, r) ∈ onEqualities tables → l ∈ sides ∧ r ∈ sides := by
    rw [← hrenders.stored, equalities_linkedTwice]
    simp [onEqualities, sides]
  rcases Closure.eq_or hsides h with h | ⟨h, -⟩
  · exact absurd h (by decide)
  · exact absurd h (by decide)

-- Where columns of a node meet through nodes that are not virtual, the text says so.
theorem sql_same_node {c d : ColumnRef} (hg : g.Linked) (hs : g.Straight s) (hn : n ∈ g.realNodes)
    (h : g.Forces s ⟨n, c⟩ ⟨n, d⟩) : g.Prints s ⟨n, c⟩ ⟨n, d⟩ :=
  hs.prints hg hn hn h

-- The link refers twice to a film that is not virtual.
def joinedTwice : QueryGraph :=
  filmGraph false [(0, 0), (0, 1)]

theorem straight_joinedTwice : joinedTwice.Straight filmSchema where
  source x hx := by
    have hall : ∀ o ∈ joinedTwice.edges, ∀ x ∈ o, joinedTwice.isVirtual x.source = false := by decide
    exact hall _ (hasEdge_iff_mem.mp hx) x rfl
  loop a b hab hnode := by
    have hall : ∀ e ∈ joinedTwice.relations filmSchema, e.1.node ≠ e.2.node := by decide +kernel
    exact absurd hnode (hall _ (relates_iff_mem.mp hab))
  apart a b c _ _ _ _ hc := by
    have hall : ∀ n < 3, joinedTwice.isVirtual n = false := by decide
    have hlt : c.node < joinedTwice.slots.length := lt_of_contains (contains_of_isVirtual hc)
    simp [hall c.node hlt] at hc

-- The film refers to nothing, and nothing refers to the information.
theorem traverse_joinedTwice : joinedTwice.traverse = [(0, []), (2, [0, 1]), (1, [])] := by
  have hnodes : joinedTwice.nodes = [0, 1, 2] := by decide
  have hlength : joinedTwice.slots.length = 3 := by decide
  have hneighbors : joinedTwice.neighbors 0 = [2, 2] ∧ joinedTwice.neighbors 1 = [] ∧
    joinedTwice.neighbors 2 = [0, 0] := by decide
  have hedges : joinedTwice.edgesTo [0] 2 = [0, 1] := by decide
  simp [traverse, walkFrom, walk, hnodes, hlength, hneighbors, hedges]

theorem sql_joinedTwice : joinedTwice.sql filmSchema false =
    "SELECT *\nFROM link AS x\n\tJOIN film AS z ON x.film_id = z.id AND x.linked_id = z.id" ++
      "\n\tJOIN info AS y ON TRUE;" := by
  have h : joinedTwice.equalities filmSchema =
      [(0, []), (2, [(⟨0, ⟨1, 0⟩⟩, ⟨2, ⟨0, 0⟩⟩), (⟨0, ⟨1, 1⟩⟩, ⟨2, ⟨0, 0⟩⟩)]), (1, [])] := by
    rw [equalities, traverse_joinedTwice]
    decide +kernel
  rw [sql, fromList, h]
  decide +kernel

theorem sql_same_node_joinedTwice : joinedTwice.Linked ∧ joinedTwice.Straight filmSchema ∧ 0 ∈ joinedTwice.realNodes ∧
    joinedTwice.sql filmSchema false =
      "SELECT *\nFROM link AS x\n\tJOIN film AS z ON x.film_id = z.id AND x.linked_id = z.id" ++
        "\n\tJOIN info AS y ON TRUE;" ∧
    joinedTwice.Forces filmSchema ⟨0, ⟨1, 0⟩⟩ ⟨0, ⟨1, 1⟩⟩ ∧ joinedTwice.Prints filmSchema ⟨0, ⟨1, 0⟩⟩ ⟨0, ⟨1, 1⟩⟩ := by
  have hg : joinedTwice.Linked := (wellFormed_filmGraph (by decide)).linked
  have hn : 0 ∈ joinedTwice.realNodes := by decide
  have h : joinedTwice.Forces filmSchema ⟨0, ⟨1, 0⟩⟩ ⟨0, ⟨1, 1⟩⟩ :=
    forces_of_common_target (t := ⟨2, ⟨0, 0⟩⟩) (by decide +kernel) (by decide +kernel)
  exact ⟨hg, straight_joinedTwice, hn, sql_joinedTwice, h, sql_same_node hg straight_joinedTwice hn h⟩

end QueryGraph

end Subplans
