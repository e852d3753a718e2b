import Subplans.Proofs.Merge.Collapse
import Subplans.Proofs.Schema.Walk

/-!
Joins along connections.

A connection between columns of two nodes makes the columns equal, and nothing else as far as nodes that are
not virtual are concerned (`joined_addConnection`): the virtual nodes on its way hand the equality on, and
those that are made one with others were equal to them before.
-/

namespace Subplans

open Closure Relation

namespace QueryGraph

variable {s : Schema} {g g' g'' : QueryGraph} {key last next target : Nat} {natural : Bool} {a b c d : ColumnRef}
  {w : Connection} {J K : Slot → Slot → Prop}

-- A step over the key leads from the one column to the other, different one.
def Steps (s : Schema) (key : Nat) (natural : Bool) (c d : ColumnRef) : Prop :=
  if natural then IsProper s key c d else IsProper s key d c

-- The graph with the edge of a step, before nodes are made one.
structure Stepped (s : Schema) (g : QueryGraph) (p q : Slot) (h : QueryGraph) : Prop where
  tidy      : h.Tidy s
  sameNodes : SameNodes g h
  forces    : ∀ a b, h.Forces s a b ↔ EqvGen (Either (g.Relates s) (Pair p q)) a b
  uses      : h.Uses s q

theorem addStep_spec (hg : g.Tidy s) (hk : Steps s key natural c d) (hl : g.contains last = true)
    (hn : g.contains next = true) (hc : g.Takes s last c) (hd : g.Takes s next d)
    (hne : last = next → g.isVirtual last = false) :
    ∃ h φ, Stepped s g ⟨last, c⟩ ⟨next, d⟩ h ∧ Folding s h (g.addStep key natural last next).1 φ ∧
      (g.addStep key natural last next).1.Tidy s ∧ (g.addStep key natural last next).2 = φ next := by
  cases natural
  case true =>
    have htidy := hg.addEdge hk hl hn hc hd hne
    have hedge : (g.addEdge last key next).2.edge? g.edges.length = some ⟨last, key, next⟩ := by
      simp [edge?_addEdge]
    have ⟨φ, hfold, htidy', hends⟩ := folding_mergeVirtual htidy hedge
    have hrel : (g.addEdge last key next).2.Relates s = _ := relates_addEdge hk
    refine ⟨_, φ, ⟨htidy, sameNodes_addEdge, fun _ _ => by rw [Forces, hrel], ?_⟩, hfold, htidy', ?_⟩
    · exact ⟨⟨last, c⟩, .inr (hrel ▸ .inr ⟨rfl, rfl⟩)⟩
    · exact congrArg Prod.snd hends
  case false =>
    have hne' : next = last → g.isVirtual next = false := fun h => h ▸ hne h.symm
    have htidy := hg.addEdge hk hn hl hd hc hne'
    have hedge : (g.addEdge next key last).2.edge? g.edges.length = some ⟨next, key, last⟩ := by
      simp [edge?_addEdge]
    have ⟨φ, hfold, htidy', hends⟩ := folding_mergeVirtual htidy hedge
    have hrel : (g.addEdge next key last).2.Relates s = _ := relates_addEdge hk
    refine ⟨_, φ, ⟨htidy, sameNodes_addEdge, fun a b => ?_, ?_⟩, hfold, htidy', ?_⟩
    · rw [Forces, hrel]
      exact pair_comm
    · exact ⟨⟨last, c⟩, .inl (hrel ▸ .inr ⟨rfl, rfl⟩)⟩
    · exact congrArg Prod.fst hends

-- What becomes of a graph when joins are added that make the pairs of `J` equal.
structure Joined (s : Schema) (g g' : QueryGraph) (J : Slot → Slot → Prop) : Prop where
  tidy  : g'.Tidy s
  keeps : Keeps g g'
  agree : Agree g.Real (g'.Relates s) (Either (g.Relates s) J)

theorem Joined.trans (h : Joined s g g' J) (h' : Joined s g' g'' K) (hK : ∀ p q, K p q → g.Real p ∧ g.Real q) :
    Joined s g g'' (Either J K) where
  tidy := h'.tidy
  keeps := h.keeps.trans h'.keeps
  agree := by
    have hagree := h'.agree
    rw [h.keeps.real] at hagree
    rw [← either_assoc]
    exact hagree.trans (h.agree.sup hK)

-- The last step of a connection leads to a node that is there already.
theorem joined_addStep (hg : g.Tidy s) (hk : Steps s key natural c d) (hl : g.contains last = true)
    (hc : g.Takes s last c) (ht : target ∈ g.realNodes) :
    Joined s g (g.addStep key natural last target).1 (Pair ⟨last, c⟩ ⟨target, d⟩) := by
  have ⟨hcontains, hreal⟩ := hg.wellFormed.mem_realNodes.mp ht
  -- Only virtual nodes are particular about columns.
  have hd : g.Takes s target d := fun hv => by simp [hreal] at hv
  have ⟨h, φ, hstep, hfold, htidy, _⟩ := addStep_spec hg hk hl hcontains hc hd fun heq => heq ▸ hreal
  constructor
  case tidy => exact htidy
  case keeps => exact hstep.sameNodes.keeps.trans (hfold.keeps hstep.tidy.wellFormed)
  case agree =>
    rw [← hstep.sameNodes.keeps.real]
    exact hfold.agree.trans fun p q _ _ => hstep.forces p q

-- What becomes of a graph on the way of a connection: the walk has come from `p` to `q`.
structure Advanced (s : Schema) (g : QueryGraph) (p : Slot) (g' : QueryGraph) (q : Slot) : Prop where
  tidy     : g'.Tidy s
  keeps    : Keeps g g'
  contains : g'.contains q.node = true
  takes    : g'.Takes s q.node q.column
  agree    : ∀ t, g.Real t → Agree g.Real (Either (g'.Relates s) (Pair q t)) (Either (g.Relates s) (Pair p t))

theorem Advanced.joined {p q t : Slot} (h : Advanced s g p g' q) (ht : g.Real t)
    (h' : Joined s g' g'' (Pair q t)) : Joined s g g'' (Pair p t) where
  tidy := h'.tidy
  keeps := h.keeps.trans h'.keeps
  agree := by
    have hagree := h'.agree
    rw [h.keeps.real] at hagree
    exact hagree.trans (h.agree t ht)

-- The other steps lead to new virtual nodes, which hand the equality on.
theorem advanced_addStep (hg : g.Tidy s) (hk : Steps s key natural c d) (hl : g.contains last = true)
    (hc : g.Takes s last c) {o : Occurrence} (ho : o.isVirtual = true) :
    Advanced s g ⟨last, c⟩ ((g.addFresh o).2.addStep key natural last g.slots.length).1
      ⟨((g.addFresh o).2.addStep key natural last g.slots.length).2, d⟩ := by
  have hwf := hg.wellFormed
  have hnext : g.contains g.slots.length = false := WellFormed.not_contains_length
  -- A node without edges changes nothing about the slots that are used.
  have hrel : (g.addFresh o).2.Relates s = g.Relates s := rfl
  have huses : ∀ p, (g.addFresh o).2.Uses s p → g.Uses s p := fun _ => id
  have hlast : (g.addFresh o).2.isVirtual last = g.isVirtual last := isVirtual_add hl
  have hc' : (g.addFresh o).2.Takes s last c := fun hv e he => hc (hlast ▸ hv) e (huses _ he)
  have hd : (g.addFresh o).2.Takes s g.slots.length d := by
    intro _ e he
    have := hwf.contains_of_uses (huses _ he)
    simp [hnext] at this
  have hl' : (g.addFresh o).2.contains last = true := by simp [contains_addFresh, hl]
  have hn' : (g.addFresh o).2.contains g.slots.length = true := by simp [contains_addFresh]
  have hne : last ≠ g.slots.length := fun h => by simp [h, hnext] at hl
  have ⟨h, φ, hstep, hfold, htidy, harrive⟩ := addStep_spec hg.addFresh hk hl' hn' hc' hd fun heq => absurd heq hne
  rw [harrive]
  have hkeeps := (keeps_addFresh hwf.indexed ho).trans hstep.sameNodes.keeps
  constructor
  case tidy => exact htidy
  case keeps => exact hkeeps.trans (hfold.keeps hstep.tidy.wellFormed)
  case contains => exact hfold.contains _ (hstep.sameNodes.contains.trans hn')
  case takes => exact fun hv e he => htidy.single _ _ _ hv he (hfold.uses_map hstep.uses)
  case agree =>
    intro t ht p q hp hq
    have fold := hfold.agree_pair hstep.uses (hkeeps.real ▸ ht) p q (hkeeps.real ▸ hp) (hkeeps.real ▸ hq)
    refine fold.trans ((either_congr hstep.forces).trans ?_)
    rw [hrel]
    -- The new node stands for the column of the last one.
    have off : ∀ p : Slot, g.contains p.node = true → p.node ≠ g.slots.length := by
      intro p hp heq
      simp [heq, hnext] at hp
    have real : ∀ {p : Slot}, g.Real p → p.node ≠ g.slots.length := fun hp => off _ (hwf.mem_realNodes.mp hp).1
    apply shortcut fun (p : Slot) => if p.node = g.slots.length then ⟨last, c⟩ else p
    case hA =>
      intro a b hab
      have ha := off a (hwf.contains_of_uses ⟨b, .inl hab⟩)
      have hb := off b (hwf.contains_of_uses ⟨a, .inr hab⟩)
      simp [ha, hb]
    case hx => simp [hne]
    case hy => simp
    case hz => simp [real ht]
    case ha => simp [real hp]
    case hb => simp [real hq]

-- A connection goes on after its first step, whichever key is pending.
theorem addConnection_cons {pending : Option (Nat × Bool)} {k : Nat} :
    addConnection s target g last pending (.join key natural :: .table k :: w) =
      addConnection s target ((g.addFresh (.virtual s k)).2.addStep key natural last g.slots.length).1
        ((g.addFresh (.virtual s k)).2.addStep key natural last g.slots.length).2 (some (key, natural)) w := by
  cases pending <;> rfl

theorem joined_addConnection (hw : Walk (Steps s) a w d) {pending : Option (Nat × Bool)} (hg : g.Tidy s)
    (hl : g.contains last = true) (ha : g.Takes s last a) (ht : target ∈ g.realNodes) :
    Joined s g (addConnection s target g last pending w) (Pair ⟨last, a⟩ ⟨target, d⟩) := by
  induction hw generalizing g last pending
  case single hk =>
    have hstep := joined_addStep hg hk hl ha ht
    cases pending <;> simpa [addConnection] using hstep
  case cons key natural a b d w hk hw ih =>
    have hadv := advanced_addStep hg hk hl ha (o := .virtual s b.table) rfl
    rw [addConnection_cons]
    exact hadv.joined ht (ih hadv.tidy hadv.contains hadv.takes (hadv.keeps.realNodes ▸ ht))

theorem Steps.unique {c' d' : ColumnRef} (h : Steps s key natural c d) (h' : Steps s key natural c' d') :
    c = c' ∧ d = d' := by
  cases natural
  case false =>
    have heq := h.pairs.symm.trans h'.pairs
    simp_all
  case true =>
    have heq := h.pairs.symm.trans h'.pairs
    simp_all

-- As keys consist of one pair each, the connection tells the columns that it leads from and to.
theorem ends_unique {c' d' : ColumnRef} (h : Walk (Steps s) c w d) (h' : Walk (Steps s) c' w d') :
    c = c' ∧ d = d' := by
  induction h generalizing c'
  case single hk =>
    cases h'
    case single hk' => exact hk.unique hk'
  case cons key natural _ b _ w hk _ ih =>
    generalize hlist : (.join key natural :: .table b.table :: w : Connection) = w' at h'
    cases h'
    case single => simp at hlist
    case cons hk' hw' =>
      simp only [List.cons.injEq, Step.join.injEq, Step.table.injEq] at hlist
      obtain ⟨⟨rfl, rfl⟩, -, rfl⟩ := hlist
      have ⟨hc, hb⟩ := hk.unique hk'
      exact ⟨hc, (ih (hb ▸ hw')).2⟩

-- The pairs of slots that the joins make equal, where `π` and `ρ` tell the places of the nodes of either graph.
def JoinedBy (s : Schema) (π ρ : Nat → Nat) (joins : List EquivalenceJoin) (p q : Slot) : Prop :=
  ∃ j ∈ joins, ∃ c d, Walk (Steps s) c j.connection d ∧ p = ⟨π j.first, c⟩ ∧ q = ⟨ρ j.second, d⟩

theorem joined_foldl {π ρ : Nat → Nat} {joins : List EquivalenceJoin} (hg : g.Tidy s)
    (hj : ∀ j ∈ joins, π j.first ∈ g.realNodes ∧ ρ j.second ∈ g.realNodes ∧
      ∃ c d, Walk (Steps s) c j.connection d) :
    Joined s g (joins.foldl (fun g j => addConnection s (ρ j.second) g (π j.first) none j.connection) g)
      (JoinedBy s π ρ joins) := by
  induction joins generalizing g
  case nil =>
    refine ⟨hg, .refl, fun p q _ _ => ?_⟩
    have hnone : JoinedBy s π ρ [] = fun _ _ => False := by
      funext
      simp [JoinedBy]
    rw [hnone, either_false]
    rfl
  case cons j joins ih =>
    obtain ⟨hfirst, hsecond, c, d, hw⟩ := hj j List.mem_cons_self
    have hrest := fun j h => hj j (List.mem_cons_of_mem _ h)
    obtain ⟨hl, hv⟩ := hg.wellFormed.mem_realNodes.mp hfirst
    have htakes : g.Takes s (π j.first) c := fun h => by simp [hv] at h
    have hjoined : Joined s g (addConnection s _ g _ none _) _ := joined_addConnection hw hg hl htakes hsecond
    have hnext := ih hjoined.tidy (by simpa [hjoined.keeps.realNodes] using hrest)
    have hsplit : JoinedBy s π ρ (j :: joins) =
        Either (Pair ⟨π j.first, c⟩ ⟨ρ j.second, d⟩) (JoinedBy s π ρ joins) := by
      funext p q
      simp only [JoinedBy, Either, Pair, List.mem_cons, or_and_right, exists_or, exists_eq_left, eq_iff_iff]
      apply or_congr_left
      constructor
      case mp =>
        rintro ⟨c', d', hw', hp, hq⟩
        obtain ⟨hc, hd⟩ := ends_unique hw hw'
        exact ⟨hc ▸ hp, hd ▸ hq⟩
      case mpr =>
        rintro ⟨hp, hq⟩
        exact ⟨c, d, hw, hp, hq⟩
    rw [hsplit, List.foldl_cons]
    refine hjoined.trans hnext ?_
    rintro p q ⟨j, hmem, c, d, _, rfl, rfl⟩
    obtain ⟨hfirst, hsecond, _⟩ := hrest j hmem
    exact ⟨hfirst, hsecond⟩

end QueryGraph

end Subplans
