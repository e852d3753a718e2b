import Subplans.Proofs.Graph.Components
import Subplans.Proofs.Merge.Connect
import Subplans.Proofs.Merge.Copy
import Subplans.Proofs.Schema.Equivalence

/-!
The tables at the ends of edges, and which nodes the edges of a merger connect.

Every edge of a `Grounded` graph leads from the table that its key refers from to the one that it refers to. Merging
keeps graphs grounded, and it connects nodes that are not virtual just as both graphs and the joins between them do
(`bridged_foldl`): nodes are taken out in favour of others only where edges connect them (`Fuses.connects`).
-/

namespace Subplans

open Closure Relation

-- No key refers from a table to itself.
def Schema.Outward (s : Schema) : Prop :=
  ∀ key ∈ s.keys, key.source ≠ key.target

namespace QueryGraph

variable {s : Schema} {g g' g'' : QueryGraph} {n m key last next target first second added added' k : Nat}
  {natural : Bool}
  {a b c d : ColumnRef} {w : Connection} {x e : Edge} {r : Redundancy} {φ ψ π ρ : Nat → Nat} {J K : Nat → Nat → Prop}

-- The table that the node stands for a row of.
def table? (g : QueryGraph) (n : Nat) : Option Nat :=
  (g.node? n).map Occurrence.table

-- The edge leads from an instance of the referencing table of its key to an instance of the referenced one.
structure Typed (s : Schema) (g : QueryGraph) (x : Edge) : Prop where
  key    : s.key x.key ∈ s.keys
  source : g.table? x.source = some (s.key x.key).source
  target : g.table? x.target = some (s.key x.key).target

-- The edges are typed, and none leads from a virtual node to itself: keys do not lead back to their tables, or all
-- edges at a virtual node belong to one column of it.
structure Grounded (s : Schema) (g : QueryGraph) : Prop where
  wellFormed : g.WellFormed
  typed      : ∀ x, g.HasEdge x → g.Typed s x
  straight   : s.Outward ∨ g.Tidy s

theorem contains_of_table? {t : Nat} (h : g.table? n = some t) : g.contains n = true := by
  obtain ⟨o, ho, _⟩ := Option.map_eq_some_iff.mp h
  simp [QueryGraph.contains, ho]

namespace Grounded

theorem loopless (hg : g.Grounded s) (x : Edge) (hx : g.HasEdge x) (heq : x.source = x.target) :
    g.isVirtual x.source = false := by
  rcases hg.straight with hout | htidy
  case inr => exact htidy.loopless x hx heq
  case inl =>
    have htyped := hg.typed x hx
    have hsame := htyped.source.symm.trans (heq ▸ htyped.target)
    exact absurd (Option.some.inj hsame) (hout _ htyped.key)

protected theorem empty : Grounded s empty where
  wellFormed := .empty
  typed x hx := by simp [hasEdge_iff_mem, QueryGraph.empty] at hx
  straight := .inr .empty

end Grounded

-- Each node `n` stands at the place `φ n`, which is connected with it and stands for a row of the same table.
structure Fuses (g g' : QueryGraph) (φ : Nat → Nat) : Prop where
  keeps    : Keeps g g'
  contains : ∀ n, g.contains n = true → g'.contains (φ n) = true
  table?   : ∀ n, g.contains n = true → g'.table? (φ n) = g.table? n
  fixed    : ∀ n ∈ g.realNodes, φ n = n
  hasEdge  : ∀ x, g'.HasEdge x ↔ ∃ y, g.HasEdge y ∧ y.map φ = x
  connects : ∀ n, g.contains n = true → g.Connects n (φ n)

namespace Fuses

theorem of_sameNodes (h : SameNodes g g') (hx : ∀ x, g'.HasEdge x ↔ g.HasEdge x) : Fuses g g' id where
  keeps := h.keeps
  contains n hn := h.contains.trans hn
  table? n _ := congrArg (Option.map Occurrence.table) (h.node? n)
  fixed _ _ := rfl
  hasEdge x := by simp [hx, Edge.map]
  connects _ _ := .refl _

theorem connects_of_adjacent (h : Fuses g g' φ) (hg : g.WellFormed) (hnm : g'.Adjacent n m) : g.Connects n m := by
  obtain ⟨x, hx, rfl, rfl⟩ := hnm
  obtain ⟨y, hy, rfl⟩ := (h.hasEdge x).mp hx
  have hsource := h.connects _ (hg.contains_source hy)
  have htarget := h.connects _ (hg.contains_target hy)
  exact .trans _ _ _ (.symm _ _ hsource) (.trans _ _ _ (connects_of_hasEdge hy) htarget)

theorem adjacent_map (h : Fuses g g' φ) (hnm : g.Adjacent n m) : g'.Adjacent (φ n) (φ m) := by
  obtain ⟨x, hx, rfl, rfl⟩ := hnm
  exact ⟨x.map φ, (h.hasEdge _).mpr ⟨x, hx, rfl⟩, rfl, rfl⟩

theorem trans (h : Fuses g g' φ) (h' : Fuses g' g'' ψ) (hg : g.WellFormed) : Fuses g g'' (ψ ∘ φ) where
  keeps := h.keeps.trans h'.keeps
  contains n hn := h'.contains _ (h.contains n hn)
  table? n hn := (h'.table? _ (h.contains n hn)).trans (h.table? n hn)
  fixed n hn := by
    have hfix := h'.fixed n (h.keeps.realNodes ▸ hn)
    rw [Function.comp, h.fixed n hn, hfix]
  hasEdge x := by
    rw [h'.hasEdge]
    constructor
    · rintro ⟨_, hy, rfl⟩
      obtain ⟨z, hz, rfl⟩ := (h.hasEdge _).mp hy
      exact ⟨z, hz, rfl⟩
    · rintro ⟨z, hz, rfl⟩
      exact ⟨z.map φ, (h.hasEdge _).mpr ⟨z, hz, rfl⟩, rfl⟩
  connects n hn :=
    .trans _ _ _ (h.connects n hn)
      (of_le (fun _ _ => h.connects_of_adjacent hg) (h'.connects _ (h.contains n hn)))

theorem typed (h : Fuses g g' φ) (hg : g.Grounded s) (hx : g'.HasEdge x) : g'.Typed s x := by
  obtain ⟨y, hy, rfl⟩ := (h.hasEdge x).mp hx
  have hwf := hg.wellFormed
  have hty := hg.typed y hy
  exact ⟨hty.key, (h.table? _ (hwf.contains_source hy)).trans hty.source,
    (h.table? _ (hwf.contains_target hy)).trans hty.target⟩

-- Nodes that are not virtual are connected as before, also where a connection with one of them is added.
theorem agree_pair (h : Fuses g g' φ) (hg : g.WellFormed) (hn : g.contains n = true) (hm : m ∈ g.realNodes) :
    Agree (· ∈ g.realNodes) (Either g'.Adjacent (Pair (φ n) m)) (Either g.Adjacent (Pair n m)) := by
  intro a b ha hb
  constructor
  · refine of_le ?_
    rintro a b (hab | ⟨rfl, rfl⟩)
    case inl => exact left (h.connects_of_adjacent hg hab)
    case inr => exact .trans _ _ _ (left (.symm _ _ (h.connects n hn))) of_pair
  · intro hab
    have hmap := Closure.map (B := Either g'.Adjacent (Pair (φ n) m)) φ ?_ hab
    case refine_1 =>
      rintro a b (hab | ⟨rfl, rfl⟩)
      case inl => exact .rel _ _ (.inl (h.adjacent_map hab))
      case inr => exact (h.fixed _ hm).symm ▸ of_pair
    rwa [h.fixed a ha, h.fixed b hb] at hmap

theorem agree (h : Fuses g g' φ) (hg : g.WellFormed) : Agree (· ∈ g.realNodes) g'.Adjacent g.Adjacent := by
  intro a b ha hb
  constructor
  · exact of_le fun _ _ => h.connects_of_adjacent hg
  · intro hab
    have hmap := Closure.map (B := g'.Adjacent) φ (fun _ _ hab => .rel _ _ (h.adjacent_map hab)) hab
    rwa [h.fixed a ha, h.fixed b hb] at hmap

end Fuses

-- The two nodes are ends of edges of one key whose other ends are one node.
theorem Redundant.fuses (hg : g.Grounded s) (he : g.HasEdge e) (hx : g.HasEdge x) (hk : e.key = x.key)
    (h : g.Redundant x.source x.target e r) : Fuses g (g.collapse r) (rename r.drop r.keep) := by
  have hwf := hg.wellFormed
  have hkeep := h.contains_keep hwf he hx
  by_cases hne : r.drop = r.keep
  case pos =>
    rw [collapse_same hne, hne, rename_same]
    exact .of_sameNodes .refl fun _ => .rfl
  case neg =>
    have htx := hg.typed x hx
    have hce := connects_of_hasEdge he
    have hcx := connects_of_hasEdge hx
    have ⟨htable, hconnects⟩ : g.table? r.drop = g.table? r.keep ∧ g.Connects r.drop r.keep := by
      have hsources : g.table? e.source = g.table? x.source := by rw [(hg.typed e he).source, hk, htx.source]
      have htargets : g.table? e.target = g.table? x.target := by rw [(hg.typed e he).target, hk, htx.target]
      cases h
      case oldTarget hs _ => exact ⟨htargets, .trans _ _ _ (.symm _ _ hce) (hs.symm ▸ hcx)⟩
      case newTarget hs _ => exact ⟨htargets.symm, .trans _ _ _ (.symm _ _ hcx) (hs ▸ hce)⟩
      case oldSource ht _ => exact ⟨hsources, .trans _ _ _ hce (.symm _ _ (ht.symm ▸ hcx))⟩
      case newSource ht _ => exact ⟨hsources.symm, .trans _ _ _ hcx (.symm _ _ (ht ▸ hce))⟩
    have hnode : ∀ n, n ≠ r.drop → (g.collapse r).node? n = g.node? n := fun n hn => by
      rw [node?_collapse hne, if_neg hn]
    constructor
    case keeps => exact keeps_collapse h.virtual
    case contains =>
      intro n hn
      rw [QueryGraph.contains, hnode _ (rename_ne hne)]
      exact WellFormed.contains_rename hkeep hn
    case table? =>
      intro n _
      rw [QueryGraph.table?, hnode _ (rename_ne hne)]
      by_cases hn : n = r.drop
      case pos => rw [hn, rename_self, htable, QueryGraph.table?]
      case neg => rw [rename_of_ne hn, QueryGraph.table?]
    case fixed =>
      intro n hn
      apply rename_of_ne
      rintro rfl
      have hreal := (mem_realNodes.mp hn).2
      simp [h.virtual] at hreal
    case hasEdge =>
      intro x
      simp only [HasEdge, edge?_collapse hwf.wired (lt_of_contains hkeep), Option.map_eq_some_iff]
      grind
    case connects =>
      intro n _
      by_cases hn : n = r.drop
      case pos => rw [hn, rename_self]; exact hconnects
      case neg => rw [rename_of_ne hn]; exact .refl _

theorem fuses_step (hg : g.Grounded s) (hx : g.edge? added = some ⟨first, k, second⟩)
    (hr : g.findRedundant first added second = some r)
    (heq : (g.collapse r).dedupeEdges added = (g', added')) :
    Fuses g g' (rename r.drop r.keep) ∧ g'.Grounded s ∧ g'.edge? added' = some ⟨r.first, k, r.second⟩ ∧
      rename r.drop r.keep first = r.first ∧ rename r.drop r.keep second = r.second := by
  obtain ⟨id, e, x, _, he, hx', hk, hredundant⟩ := redundant_of_findRedundant hr
  cases hx.symm.trans hx'
  have hwf := hg.wellFormed
  have hkeep := hredundant.contains_keep hwf ⟨id, he⟩ ⟨added, hx⟩
  have ⟨hfirst, hsecond⟩ := hredundant.rename_ends hg.loopless ⟨id, he⟩ ⟨added, hx⟩
  have hdedup : Deduped (g.collapse r) added g' added' := by
    have h : Deduped (g.collapse r) added _ _ := deduped_dedupeEdges
    rwa [heq] at h
  have hfuses := (hredundant.fuses hg ⟨id, he⟩ ⟨added, hx⟩ hk).trans (.of_sameNodes hdedup.sameNodes hdedup.hasEdge) hwf
  refine ⟨hfuses, ⟨hdedup.wellFormed (hwf.collapse hkeep), fun x hx => hfuses.typed hg hx, ?_⟩, ?_, hfirst, hsecond⟩
  case refine_1 => exact hg.straight.imp_right fun htidy => (folding_step htidy hx hr heq).2.1
  case refine_2 =>
    rw [hdedup.added, edge?_collapse hwf.wired (lt_of_contains hkeep), hx]
    simp [Edge.map, hfirst, hsecond]

theorem fuses_mergeVirtual (hg : g.Grounded s) (hx : g.edge? added = some ⟨first, k, second⟩) :
    ∃ φ, Fuses g (g.mergeVirtual first added second).1 φ ∧ (g.mergeVirtual first added second).1.Grounded s ∧
      (g.mergeVirtual first added second).2 = (φ first, φ second) := by
  fun_induction mergeVirtual g first added second
  case case1 => exact ⟨id, .of_sameNodes .refl fun _ => .rfl, hg, rfl⟩
  case case2 hr _ _ heq _ ih =>
    obtain ⟨hfuses, hgrounded, hedge, hfirst, hsecond⟩ := fuses_step hg hx hr heq
    obtain ⟨φ, hfuses', hgrounded', hends⟩ := ih hgrounded hedge
    exact ⟨_, hfuses.trans hfuses' hg.wellFormed, hgrounded', by simp [hends, hfirst, hsecond]⟩
  case case3 hr _ _ heq _ =>
    obtain ⟨hfuses, hgrounded, _, hfirst, hsecond⟩ := fuses_step hg hx hr heq
    exact ⟨_, hfuses, hgrounded, by simp [hfirst, hsecond]⟩

-- A step over a key leads from the one column to the other, different one, and keys do not lead back to their tables or
-- have one pair each.
structure Crossing (s : Schema) (key : Nat) (natural : Bool) (c d : ColumnRef) : Prop where
  crosses  : s.bonds.Crosses key natural c d
  straight : s.Outward ∨ Steps s key natural c d

theorem bonds_tables (hs : s.Loaded) (h : s.bonds key c d) :
    s.key key ∈ s.keys ∧ (s.key key).source = c.table ∧ (s.key key).target = d.table := by
  obtain ⟨entry, hentry, hmem⟩ := h
  have hkey : s.key key = entry := by simp [Schema.key, List.getD_eq_getElem?_getD, hentry]
  have hentry := List.mem_of_getElem? hentry
  have hfits := hs.fits entry hentry
  exact hkey ▸ ⟨hentry, (hfits.source _ hmem).symm, (hfits.target _ hmem).symm⟩

theorem adjacent_addEdge : (g.addEdge first key second).2.Adjacent = Either g.Adjacent (Pair first second) := by
  funext n m
  simp only [Adjacent, hasEdge_addEdge, Either, Pair, eq_iff_iff]
  constructor
  · rintro ⟨x, rfl | hx, rfl, rfl⟩
    · exact .inr ⟨rfl, rfl⟩
    · exact .inl ⟨x, hx, rfl, rfl⟩
  · rintro (⟨x, hx, rfl, rfl⟩ | ⟨rfl, rfl⟩)
    · exact ⟨x, .inr hx, rfl, rfl⟩
    · exact ⟨_, .inl rfl, rfl, rfl⟩

theorem SameNodes.table? (h : SameNodes g g') : g'.table? n = g.table? n :=
  congrArg (Option.map Occurrence.table) (h.node? n)

protected theorem Grounded.addEdge (hg : g.Grounded s) (hs : s.Loaded) (hk : s.bonds key c d)
    (hc : g.table? first = some c.table) (hd : g.table? second = some d.table)
    (hstraight : s.Outward ∨ (g.addEdge first key second).2.Tidy s) : (g.addEdge first key second).2.Grounded s where
  wellFormed := hg.wellFormed.addEdge (contains_of_table? hc) (contains_of_table? hd)
  typed x hx := by
    have hnodes : SameNodes g (g.addEdge first key second).2 := sameNodes_addEdge
    have ⟨hkey, hsource, htarget⟩ := bonds_tables hs hk
    rcases hasEdge_addEdge.mp hx with rfl | hx
    · exact ⟨hkey, by rw [hnodes.table?, hc, hsource], by rw [hnodes.table?, hd, htarget]⟩
    · have htyped := hg.typed x hx
      exact ⟨htyped.key, hnodes.table?.trans htyped.source, hnodes.table?.trans htyped.target⟩
  straight := hstraight

-- A walk has come to the column of the node.
structure Arrived (s : Schema) (g : QueryGraph) (n : Nat) (c : ColumnRef) : Prop where
  grounded : g.Grounded s
  table    : g.table? n = some c.table
  takes    : s.Outward ∨ (g.Tidy s ∧ g.Takes s n c)

theorem Arrived.addFresh {o : Occurrence} (h : Arrived s g n c) : Arrived s (g.addFresh o).2 n c := by
  have hwf := h.grounded.wellFormed
  have htable : ∀ {m t}, g.table? m = some t → (g.addFresh o).2.table? m = some t := by
    intro m t hm
    rw [table?, node?_addFresh, if_neg (Nat.ne_of_lt (lt_of_contains (contains_of_table? hm)))]
    exact hm
  have hn := contains_of_table? h.table
  have hvirtual : (g.addFresh o).2.isVirtual n = g.isVirtual n := isVirtual_add hn
  refine ⟨⟨hwf.addFresh, fun x hx => ?_, h.grounded.straight.imp_right Tidy.addFresh⟩, htable h.table, ?_⟩
  case refine_1 =>
    have htyped := h.grounded.typed x hx
    exact ⟨htyped.key, htable htyped.source, htable htyped.target⟩
  case refine_2 =>
    exact h.takes.imp_right fun ⟨htidy, htakes⟩ => ⟨htidy.addFresh, fun hv e he => htakes (hvirtual ▸ hv) e he⟩

-- The graph with the edge of a step, before nodes are made one.
structure Lengthened (s : Schema) (g : QueryGraph) (key : Nat) (natural : Bool) (n m : Nat) (g' : QueryGraph) :
    Prop where
  grounded  : g'.Grounded s
  sameNodes : SameNodes g g'
  connects  : ∀ a b, g'.Connects a b ↔ EqvGen (Either g.Adjacent (Pair n m)) a b
  hasEdge   : ∀ x, g'.HasEdge x ↔ x = (if natural then ⟨n, key, m⟩ else ⟨m, key, n⟩) ∨ g.HasEdge x

-- The graph with the edge of a step is grounded.
protected theorem Arrived.addEdge (hs : s.Loaded) (ha : Arrived s g last c) (hk : Crossing s key natural c d)
    (hn : g.table? next = some d.table) (hd : g.Takes s next d) (hne : last = next → g.isVirtual last = false) :
    (g.addEdge (if natural then last else next) key (if natural then next else last)).2.Grounded s := by
  have hlast := contains_of_table? ha.table
  have hnext := contains_of_table? hn
  cases natural
  case true =>
    refine ha.grounded.addEdge hs hk.crosses ha.table hn ?_
    rcases ha.takes with hout | ⟨htidy, hc⟩
    · exact .inl hout
    · exact hk.straight.imp_right fun hstep => htidy.addEdge hstep hlast hnext hc hd hne
  case false =>
    refine ha.grounded.addEdge hs hk.crosses hn ha.table ?_
    rcases ha.takes with hout | ⟨htidy, hc⟩
    · exact .inl hout
    · exact hk.straight.imp_right fun hstep =>
        htidy.addEdge hstep hnext hlast hd hc fun heq => heq ▸ hne heq.symm

theorem addStep_fuses (hs : s.Loaded) (ha : Arrived s g last c) (hk : Crossing s key natural c d)
    (hn : g.table? next = some d.table) (hd : g.Takes s next d) (hne : last = next → g.isVirtual last = false) :
    ∃ h φ, Lengthened s g key natural last next h ∧ Fuses h (g.addStep key natural last next).1 φ ∧
      (g.addStep key natural last next).1.Grounded s ∧ (g.addStep key natural last next).2 = φ next := by
  have hgrounded := ha.addEdge hs hk hn hd hne
  cases natural
  case true =>
    have hedge : (g.addEdge last key next).2.edge? g.edges.length = some ⟨last, key, next⟩ := by
      simp [edge?_addEdge]
    have ⟨φ, hfuses, hgrounded', hends⟩ := fuses_mergeVirtual hgrounded hedge
    have hadjacent : (g.addEdge last key next).2.Adjacent = _ := adjacent_addEdge
    refine ⟨_, φ, ⟨hgrounded, sameNodes_addEdge, fun a b => ?_, fun x => hasEdge_addEdge⟩, hfuses, hgrounded',
      congrArg Prod.snd hends⟩
    rw [Connects, if_pos rfl, if_pos rfl, hadjacent]
  case false =>
    have hedge : (g.addEdge next key last).2.edge? g.edges.length = some ⟨next, key, last⟩ := by
      simp [edge?_addEdge]
    have ⟨φ, hfuses, hgrounded', hends⟩ := fuses_mergeVirtual hgrounded hedge
    have hadjacent : (g.addEdge next key last).2.Adjacent = _ := adjacent_addEdge
    refine ⟨_, φ, ⟨hgrounded, sameNodes_addEdge, fun a b => ?_, fun x => hasEdge_addEdge⟩, hfuses, hgrounded',
      congrArg Prod.fst hends⟩
    rw [Connects, if_neg nofun, if_neg nofun, hadjacent]
    exact pair_comm

-- What becomes of a graph when nodes that are not virtual are connected.
structure Bridged (s : Schema) (g g' : QueryGraph) (J : Nat → Nat → Prop) : Prop where
  grounded : g'.Grounded s
  keeps    : Keeps g g'
  agree    : Agree (· ∈ g.realNodes) g'.Adjacent (Either g.Adjacent J)

theorem Bridged.trans (h : Bridged s g g' J) (h' : Bridged s g' g'' K)
    (hK : ∀ n m, K n m → n ∈ g.realNodes ∧ m ∈ g.realNodes) : Bridged s g g'' (Either J K) where
  grounded := h'.grounded
  keeps := h.keeps.trans h'.keeps
  agree := by
    have hagree := h'.agree
    rw [h.keeps.realNodes] at hagree
    rw [← either_assoc]
    exact hagree.trans (h.agree.sup hK)

-- The last step of a connection leads to a node that is there already.
theorem bridged_addStep (hs : s.Loaded) (ha : Arrived s g last c) (hk : Crossing s key natural c d)
    (ht : target ∈ g.realNodes) (hd : g.table? target = some d.table) :
    Bridged s g (g.addStep key natural last target).1 (Pair last target) := by
  have hreal := (ha.grounded.wellFormed.mem_realNodes.mp ht).2
  have htakes : g.Takes s target d := fun hv => by simp [hreal] at hv
  have ⟨h, φ, hext, hfuses, hgrounded, _⟩ := addStep_fuses hs ha hk hd htakes fun heq => heq ▸ hreal
  constructor
  case grounded => exact hgrounded
  case keeps => exact hext.sameNodes.keeps.trans hfuses.keeps
  case agree =>
    rw [← hext.sameNodes.realNodes]
    exact (hfuses.agree hext.grounded.wellFormed).trans fun a b _ _ => hext.connects a b

-- What becomes of a graph on the way of a connection: the walk has come from node `n` to node `m`.
structure Passed (s : Schema) (g : QueryGraph) (n : Nat) (g' : QueryGraph) (m : Nat) (d : ColumnRef) : Prop where
  arrived : Arrived s g' m d
  keeps   : Keeps g g'
  agree   : ∀ t ∈ g.realNodes, Agree (· ∈ g.realNodes) (Either g'.Adjacent (Pair m t)) (Either g.Adjacent (Pair n t))

theorem Passed.bridged (h : Passed s g n g' m d) (ht : target ∈ g.realNodes) (h' : Bridged s g' g'' (Pair m target)) :
    Bridged s g g'' (Pair n target) where
  grounded := h'.grounded
  keeps := h.keeps.trans h'.keeps
  agree := by
    have hagree := h'.agree
    rw [h.keeps.realNodes] at hagree
    exact hagree.trans (h.agree target ht)

-- The other steps lead to new virtual nodes.
theorem table?_addFresh_length {t : Nat} : (g.addFresh (.virtual s t)).2.table? g.slots.length = some t := by
  simp [table?, node?_addFresh, Occurrence.virtual]

-- A new node is none of those that edges lead to.
theorem takes_addFresh {o : Occurrence} (hg : g.WellFormed) : (g.addFresh o).2.Takes s g.slots.length d := by
  have hfresh : g.contains g.slots.length = false := WellFormed.not_contains_length
  intro _ e he
  have := hg.contains_of_uses (show g.Uses s _ from he)
  simp [hfresh] at this

theorem Arrived.ne_length (ha : Arrived s g last c) : last ≠ g.slots.length :=
  Nat.ne_of_lt (lt_of_contains (contains_of_table? ha.table))

theorem addFresh_fuses (hs : s.Loaded) (ha : Arrived s g last c) (hk : Crossing s key natural c d) :
    ∃ h φ, Lengthened s (g.addFresh (.virtual s d.table)).2 key natural last g.slots.length h ∧
      Fuses h ((g.addFresh (.virtual s d.table)).2.addStep key natural last g.slots.length).1 φ ∧
      ((g.addFresh (.virtual s d.table)).2.addStep key natural last g.slots.length).1.Grounded s ∧
      ((g.addFresh (.virtual s d.table)).2.addStep key natural last g.slots.length).2 = φ g.slots.length :=
  addStep_fuses hs ha.addFresh hk table?_addFresh_length (takes_addFresh ha.grounded.wellFormed)
    fun heq => absurd heq ha.ne_length

theorem passed_addStep (hs : s.Loaded) (ha : Arrived s g last c) (hk : Crossing s key natural c d) :
    Passed s g last ((g.addFresh (.virtual s d.table)).2.addStep key natural last g.slots.length).1
      ((g.addFresh (.virtual s d.table)).2.addStep key natural last g.slots.length).2 d := by
  have hwf := ha.grounded.wellFormed
  have hlast := contains_of_table? ha.table
  have hfresh : g.contains g.slots.length = false := WellFormed.not_contains_length
  have hne := ha.ne_length
  have ⟨h, φ, hext, hfuses, hgrounded, harrive⟩ := addFresh_fuses hs ha hk
  rw [harrive]
  have hkeeps := (keeps_addFresh hwf.indexed (o := .virtual s d.table) rfl).trans hext.sameNodes.keeps
  have hcontains : h.contains g.slots.length = true :=
    hext.sameNodes.contains.trans (by simp [contains_addFresh])
  refine ⟨⟨hgrounded, ?_, ?_⟩, hkeeps.trans hfuses.keeps, ?_⟩
  case refine_1 => rw [hfuses.table? _ hcontains, hext.sameNodes.table?, table?_addFresh_length]
  case refine_2 =>
    rcases ha.takes with hout | ⟨htidy, hc⟩
    · exact .inl hout
    · refine hk.straight.imp_right fun hstep => ?_
      have hadv := advanced_addStep htidy hstep hlast hc (o := .virtual s d.table) rfl
      exact ⟨hadv.tidy, harrive ▸ hadv.takes⟩
  case refine_3 =>
    intro t ht n m hn hm
    have fuse := hfuses.agree_pair hext.grounded.wellFormed hcontains (hkeeps.realNodes ▸ ht)
      n m (hkeeps.realNodes ▸ hn) (hkeeps.realNodes ▸ hm)
    refine fuse.trans ((either_congr hext.connects).trans ?_)
    have hadjacent : (g.addFresh (.virtual s d.table)).2.Adjacent = g.Adjacent := rfl
    rw [hadjacent]
    -- The new node stands for the last one.
    have off : ∀ n, g.contains n = true → n ≠ g.slots.length := by
      intro n hn heq
      simp [heq, hfresh] at hn
    have real : ∀ {n}, n ∈ g.realNodes → n ≠ g.slots.length := fun hn => off _ (hwf.mem_realNodes.mp hn).1
    apply shortcut fun n => if n = g.slots.length then last else n
    case hA =>
      rintro a b ⟨x, hx, rfl, rfl⟩
      simp [off _ (hwf.contains_source hx), off _ (hwf.contains_target hx)]
    case hx => simp [hne]
    case hy => simp
    case hz => simp [real ht]
    case ha => simp [real hn]
    case hb => simp [real hm]

theorem bridged_addConnection (hs : s.Loaded) (hw : Walk (Crossing s) a w d) {pending : Option (Nat × Bool)}
    (ha : Arrived s g last a) (ht : target ∈ g.realNodes) (hd : g.table? target = some d.table) :
    Bridged s g (addConnection s target g last pending w) (Pair last target) := by
  induction hw generalizing g last pending
  case single hk =>
    have hstep := bridged_addStep hs ha hk ht hd
    cases pending <;> simpa [addConnection] using hstep
  case cons key natural a b d w hk hw ih =>
    have hpassed := passed_addStep hs ha hk
    rw [addConnection_cons]
    have hreal := hpassed.keeps.realNodes ▸ ht
    have htable := (congrArg (Option.map Occurrence.table) (hpassed.keeps.node? target ht)).trans hd
    exact hpassed.bridged ht (ih hpassed.arrived hreal htable)

-- The columns of two nodes, one of either graph, are joined along keys.
structure Spanned (s : Schema) (first second : QueryGraph) (j : EquivalenceJoin) (c d : ColumnRef) : Prop where
  first_mem  : j.first ∈ first.realNodes
  second_mem : j.second ∈ second.realNodes
  source     : first.table? j.first = some c.table
  target     : second.table? j.second = some d.table
  walk       : Walk (Crossing s) c j.connection d

theorem Keeps.table? (h : Keeps g g') (hn : n ∈ g.realNodes) : g'.table? n = g.table? n :=
  congrArg (Option.map Occurrence.table) (h.node? n hn)

-- The join between the places of its nodes.
def placedJoin (π ρ : Nat → Nat) (j : EquivalenceJoin) : EquivalenceJoin where
  first := π j.first
  connection := j.connection
  second := ρ j.second

namespace Spanned

variable {j : EquivalenceJoin}

theorem keeps (h : Spanned s g g j c d) (hk : Keeps g g') : Spanned s g' g' j c d where
  first_mem := hk.realNodes ▸ h.first_mem
  second_mem := hk.realNodes ▸ h.second_mem
  source := (hk.table? h.first_mem).trans h.source
  target := (hk.table? h.second_mem).trans h.target
  walk := h.walk

theorem arrived (h : Spanned s g g j c d) (hg : g.Grounded s) : Arrived s g j.first c where
  grounded := hg
  table := h.source
  takes := by
    have hreal := (hg.wellFormed.mem_realNodes.mp h.first_mem).2
    exact hg.straight.imp_right fun htidy => ⟨htidy, fun hv => by simp [hreal] at hv⟩

end Spanned

-- The nodes that joins are between, where `π` and `ρ` tell the places of the nodes of either graph.
def JoinedNodes (π ρ : Nat → Nat) (joins : List EquivalenceJoin) (n m : Nat) : Prop :=
  ∃ j ∈ joins, n = π j.first ∧ m = ρ j.second

theorem bridged_foldl (hs : s.Loaded) {joins : List EquivalenceJoin} (hg : g.Grounded s)
    (hj : ∀ j ∈ joins, ∃ c d, Spanned s g g (placedJoin π ρ j) c d) :
    Bridged s g (joins.foldl (fun g j => addConnection s (ρ j.second) g (π j.first) none j.connection) g)
      (JoinedNodes π ρ joins) := by
  induction joins generalizing g
  case nil =>
    refine ⟨hg, .refl, fun n m _ _ => ?_⟩
    have hnone : JoinedNodes π ρ [] = fun _ _ => False := by
      funext
      simp [JoinedNodes]
    rw [hnone, either_false]
    rfl
  case cons j joins ih =>
    obtain ⟨c, d, hspanned⟩ := hj j List.mem_cons_self
    have hrest := fun j h => hj j (List.mem_cons_of_mem _ h)
    have hbridged : Bridged s g (addConnection s _ g _ none _) _ :=
      bridged_addConnection hs hspanned.walk (hspanned.arrived hg) hspanned.second_mem hspanned.target
    have hnext := ih hbridged.grounded fun j h => by
      obtain ⟨c, d, hspanned⟩ := hrest j h
      exact ⟨c, d, hspanned.keeps hbridged.keeps⟩
    have hsplit : JoinedNodes π ρ (j :: joins) = Either (Pair (π j.first) (ρ j.second)) (JoinedNodes π ρ joins) := by
      funext n m
      simp only [JoinedNodes, Either, Pair, List.mem_cons, or_and_right, exists_or, exists_eq_left]
    rw [hsplit, List.foldl_cons]
    refine hbridged.trans hnext ?_
    rintro n m ⟨j, hmem, rfl, rfl⟩
    obtain ⟨c, d, hspanned⟩ := hrest j hmem
    exact ⟨hspanned.first_mem, hspanned.second_mem⟩

-- An edge leads between nodes of the graph that have these places.
def Along (π : Nat → Nat) (g : QueryGraph) (a b : Nat) : Prop :=
  ∃ n m, g.Adjacent n m ∧ a = π n ∧ b = π m

namespace Copied

variable {t source : QueryGraph}

protected theorem grounded (h : Copied t source g π) (ht : t.Grounded s) (hs : source.Grounded s) : g.Grounded s where
  wellFormed := h.wellFormed
  typed x hx := by
    rcases (h.hasEdge x).mp hx with hx | ⟨y, hy, rfl⟩
    · have hkept : ∀ {n k}, t.table? n = some k → g.table? n = some k := fun hn =>
        (congrArg (Option.map Occurrence.table) (h.node? _ (contains_of_table? hn))).trans hn
      have htyped := ht.typed x hx
      exact ⟨htyped.key, hkept htyped.source, hkept htyped.target⟩
    · have hplaced : ∀ {n k}, source.table? n = some k → g.table? (π n) = some k := fun hn =>
        (congrArg (Option.map Occurrence.table) (h.placed _ (contains_of_table? hn))).trans hn
      have htyped := hs.typed y hy
      exact ⟨htyped.key, hplaced htyped.source, hplaced htyped.target⟩
  straight := by
    rcases ht.straight with hout | htidy
    · exact .inl hout
    · exact hs.straight.imp_right (h.tidy htidy)

theorem adjacent (h : Copied t source g π) : g.Adjacent = Either t.Adjacent (Along π source) := by
  funext n m
  simp only [Adjacent, h.hasEdge, Either, Along, eq_iff_iff]
  constructor
  · rintro ⟨x, hx | ⟨y, hy, rfl⟩, rfl, rfl⟩
    · exact .inl ⟨x, hx, rfl, rfl⟩
    · exact .inr ⟨y.source, y.target, ⟨y, hy, rfl, rfl⟩, rfl, rfl⟩
  · rintro (⟨x, hx, rfl, rfl⟩ | ⟨_, _, ⟨y, hy, rfl, rfl⟩, rfl, rfl⟩)
    · exact ⟨x, .inl hx, rfl, rfl⟩
    · exact ⟨y.map π, .inr ⟨y, hy, rfl⟩, rfl, rfl⟩

-- The copy is connected as the copied graph is.
theorem connects_of_along (h : Copied t source g π) (hs : source.WellFormed) (hnm : EqvGen (Along π source) n m) :
    n = m ∨ ∃ a b, source.contains a = true ∧ source.contains b = true ∧ source.Connects a b ∧ n = π a ∧ m = π b := by
  induction hnm
  case rel hnm =>
    obtain ⟨_, _, ⟨x, hx, rfl, rfl⟩, rfl, rfl⟩ := hnm
    exact .inr ⟨_, _, hs.contains_source hx, hs.contains_target hx, connects_of_hasEdge hx, rfl, rfl⟩
  case refl => exact .inl rfl
  case symm ih =>
    rcases ih with rfl | ⟨a, b, ha, hb, hab, rfl, rfl⟩
    · exact .inl rfl
    · exact .inr ⟨b, a, hb, ha, .symm _ _ hab, rfl, rfl⟩
  case trans ih ih' =>
    rcases ih with rfl | ⟨a, b, ha, hb, hab, rfl, rfl⟩
    · exact ih'
    · rcases ih' with rfl | ⟨b', c, hb', hc, hbc, heq, rfl⟩
      · exact .inr ⟨a, b, ha, hb, hab, rfl, rfl⟩
      · cases h.inj b b' hb hb' heq
        exact .inr ⟨a, c, ha, hc, .trans _ _ _ hab hbc, rfl, rfl⟩

theorem mem_realNodes_placed (h : Copied t source g π) (hs : source.WellFormed) (hn : source.contains n = true) :
    π n ∈ g.realNodes ↔ n ∈ source.realNodes :=
  h.real_placed (p := ⟨n, default⟩) hs hn

theorem mem_realNodes_kept (h : Copied t source g π) (ht : t.WellFormed) (hn : t.contains n = true) :
    n ∈ g.realNodes ↔ n ∈ t.realNodes :=
  h.real_kept (p := ⟨n, default⟩) ht hn

end Copied

-- The nodes of both graphs that are not virtual are those of the graph, unchanged, at the places that `π` and `ρ` tell.
structure Unites (first second : QueryGraph) (π ρ : Nat → Nat) (g : QueryGraph) : Prop where
  wellFormed : g.WellFormed
  realNodes  : g.realNodes = first.realNodes.map π ++ second.realNodes.map ρ
  left       : ∀ n ∈ first.realNodes, g.node? (π n) = first.node? n
  right      : ∀ n ∈ second.realNodes, g.node? (ρ n) = second.node? n

namespace Unites

variable {first second : QueryGraph}

theorem mem_left (h : Unites first second π ρ g) (hn : n ∈ first.realNodes) : π n ∈ g.realNodes :=
  h.realNodes ▸ List.mem_append_left _ (List.mem_map_of_mem hn)

theorem mem_right (h : Unites first second π ρ g) (hn : n ∈ second.realNodes) : ρ n ∈ g.realNodes :=
  h.realNodes ▸ List.mem_append_right _ (List.mem_map_of_mem hn)

theorem keeps (h : Unites first second π ρ g) (hk : Keeps g g') (hg : g'.WellFormed) : Unites first second π ρ g' where
  wellFormed := hg
  realNodes := hk.realNodes.trans h.realNodes
  left n hn := (hk.node? _ (h.mem_left hn)).trans (h.left n hn)
  right n hn := (hk.node? _ (h.mem_right hn)).trans (h.right n hn)

theorem of_copied {g₁ : QueryGraph} (hf : first.WellFormed) (hs : second.WellFormed) (h₁ : Copied empty first g₁ π)
    (h₂ : Copied g₁ second g ρ) : Unites first second π ρ g where
  wellFormed := h₂.wellFormed
  realNodes := by
    have hreal : g₁.realNodes = first.realNodes.map π := h₁.realNodes .empty hf
    rw [h₂.realNodes h₁.wellFormed hs, hreal]
  left n hn := by
    have hplaced := h₁.placed n (hf.mem_realNodes.mp hn).1
    rw [h₂.node? (π n) (by simpa [contains, hplaced] using (hf.mem_realNodes.mp hn).1), hplaced]
  right n hn := h₂.placed n (hs.mem_realNodes.mp hn).1

theorem spanned {j : EquivalenceJoin} (h : Unites first second π ρ g) (hj : Spanned s first second j c d) :
    Spanned s g g (placedJoin π ρ j) c d where
  first_mem := h.mem_left hj.first_mem
  second_mem := h.mem_right hj.second_mem
  source := (congrArg (Option.map Occurrence.table) (h.left _ hj.first_mem)).trans hj.source
  target := (congrArg (Option.map Occurrence.table) (h.right _ hj.second_mem)).trans hj.target
  walk := hj.walk

end Unites

-- The places of nodes that are connected in the graph.
def Carried (π : Nat → Nat) (g : QueryGraph) (n m : Nat) : Prop :=
  ∃ a ∈ g.realNodes, ∃ b ∈ g.realNodes, g.Connects a b ∧ n = π a ∧ m = π b

theorem connects_copies {first second g₁ : QueryGraph} (hf : first.WellFormed) (hs : second.WellFormed)
    (h₁ : Copied empty first g₁ π) (h₂ : Copied g₁ second g ρ) (hn : n ∈ g.realNodes) (hm : m ∈ g.realNodes) :
    g.Connects n m ↔ n = m ∨ Either (Carried π first) (Carried ρ second) n m := by
  have hadjacent₁ : g₁.Adjacent = Along π first := by
    have hempty : (empty).Adjacent = fun _ _ => False := by
      funext n m
      simp [Adjacent, hasEdge_iff_mem, empty]
    funext n m
    simp [h₁.adjacent, hempty, Either]
  have hadjacent : g.Adjacent = Either (Along π first) (Along ρ second) := by rw [h₂.adjacent, hadjacent₁]
  have real_left : ∀ a, first.contains a = true → π a ∈ g.realNodes → a ∈ first.realNodes := by
    intro a ha hreal
    have hc : g₁.contains (π a) = true := by rwa [contains, h₁.placed a ha]
    exact (h₁.mem_realNodes_placed hf ha).mp ((h₂.mem_realNodes_kept h₁.wellFormed hc).mp hreal)
  rw [Connects, hadjacent]
  constructor
  · intro hnm
    -- The first copy is made of the nodes of `g₁`, and the second one of others.
    have hends : ∀ a b, Along π first a b → g₁.contains a = true ∧ g₁.contains b = true := by
      rw [← hadjacent₁]
      rintro _ _ ⟨x, hx, rfl, rfl⟩
      exact ⟨h₁.wellFormed.contains_source hx, h₁.wellFormed.contains_target hx⟩
    have hnew : ∀ a b, Along ρ second a b → ¬g₁.contains a = true ∧ ¬g₁.contains b = true := by
      rintro _ _ ⟨_, _, ⟨x, hx, rfl, rfl⟩, rfl, rfl⟩
      simp [h₂.new _ (hs.contains_source hx), h₂.new _ (hs.contains_target hx)]
    rcases left_or_right hends hnew hnm with hnm | hnm
    · rcases h₁.connects_of_along hf hnm with rfl | ⟨a, b, ha, hb, hab, rfl, rfl⟩
      · exact .inl rfl
      · exact .inr (.inl ⟨a, real_left a ha hn, b, real_left b hb hm, hab, rfl, rfl⟩)
    · rcases h₂.connects_of_along hs hnm with rfl | ⟨a, b, ha, hb, hab, rfl, rfl⟩
      · exact .inl rfl
      · exact .inr (.inr ⟨a, (h₂.mem_realNodes_placed hs ha).mp hn, b, (h₂.mem_realNodes_placed hs hb).mp hm, hab,
          rfl, rfl⟩)
  · rintro (rfl | ⟨a, _, b, _, hab, rfl, rfl⟩ | ⟨a, _, b, _, hab, rfl, rfl⟩)
    · exact .refl _
    · exact Closure.map π (fun _ _ h => .rel _ _ (.inl ⟨_, _, h, rfl, rfl⟩)) hab
    · exact Closure.map ρ (fun _ _ h => .rel _ _ (.inr ⟨_, _, h, rfl, rfl⟩)) hab

-- What both graphs connect, and the joins between them.
def Bonded (first second : QueryGraph) (π ρ : Nat → Nat) (joins : List EquivalenceJoin) : Nat → Nat → Prop :=
  Either (Either (Carried π first) (Carried ρ second)) (JoinedNodes π ρ joins)

-- The graph has the nodes of both graphs that are not virtual, unchanged, and connects them as both graphs and the
-- joins do.
structure Assembled (s : Schema) (first second : QueryGraph) (π ρ : Nat → Nat) (joins : List EquivalenceJoin)
    (g : QueryGraph) : Prop where
  grounded  : g.Grounded s
  realNodes : g.realNodes = first.realNodes.map π ++ second.realNodes.map ρ
  left      : ∀ n ∈ first.realNodes, g.node? (π n) = first.node? n
  right     : ∀ n ∈ second.realNodes, g.node? (ρ n) = second.node? n
  connects  : ∀ n ∈ g.realNodes, ∀ m ∈ g.realNodes, g.Connects n m ↔ EqvGen (Bonded first second π ρ joins) n m

theorem assembled_merge (hs : s.Loaded) {first second : QueryGraph} {joins : List EquivalenceJoin}
    (hf : first.Grounded s) (hg : second.Grounded s) (hj : ∀ j ∈ joins, ∃ c d, Spanned s first second j c d) :
    ∃ π ρ, Assembled s first second π ρ joins (merge s first second joins) := by
  have hfw := hf.wellFormed
  have hgw := hg.wellFormed
  obtain ⟨π, ρ, g₁, g₂, h₁, h₂, hmerge⟩ := merge_copies hfw hgw
  have hgrounded := h₂.grounded (h₁.grounded .empty hf) hg
  have hunites : Unites first second π ρ g₂ := .of_copied hfw hgw h₁ h₂
  have hplaced : ∀ j ∈ joins, ∃ c d, Spanned s g₂ g₂ (placedJoin π ρ j) c d := by
    intro j hmem
    obtain ⟨c, d, hspanned⟩ := hj j hmem
    exact ⟨c, d, hunites.spanned hspanned⟩
  have hbridged : Bridged s g₂ _ (JoinedNodes π ρ joins) := bridged_foldl hs hgrounded hplaced
  rw [← hmerge s joins] at hbridged
  have hmerged := hunites.keeps hbridged.keeps hbridged.grounded.wellFormed
  refine ⟨π, ρ, hbridged.grounded, hmerged.realNodes, hmerged.left, hmerged.right, ?_⟩
  intro n hn m hm
  rw [hbridged.keeps.realNodes] at hn hm
  have hJ : ∀ n m, JoinedNodes π ρ joins n m → n ∈ g₂.realNodes ∧ m ∈ g₂.realNodes := by
    rintro _ _ ⟨j, hmem, rfl, rfl⟩
    obtain ⟨c, d, hspanned⟩ := hplaced j hmem
    exact ⟨hspanned.first_mem, hspanned.second_mem⟩
  rw [Connects, hbridged.agree n m hn hm, restrict_iff hJ hn hm]
  have copies : ∀ {n m}, n ∈ g₂.realNodes → m ∈ g₂.realNodes → (g₂.Connects n m ↔ _) :=
    connects_copies hfw hgw h₁ h₂
  constructor
  · refine of_le ?_
    rintro n m (⟨hn, hm, hnm⟩ | hnm)
    · rcases (copies hn hm).mp hnm with rfl | hnm
      · exact .refl _
      · exact .rel _ _ (.inl hnm)
    · exact .rel _ _ (.inr hnm)
  · refine of_le ?_
    rintro n m (hnm | hnm)
    · obtain ⟨hn, hm⟩ : n ∈ g₂.realNodes ∧ m ∈ g₂.realNodes := by
        rcases hnm with ⟨a, ha, b, hb, _, rfl, rfl⟩ | ⟨a, ha, b, hb, _, rfl, rfl⟩
        · exact ⟨hunites.mem_left ha, hunites.mem_left hb⟩
        · exact ⟨hunites.mem_right ha, hunites.mem_right hb⟩
      exact .rel _ _ (.inl ⟨hn, hm, (copies hn hm).mpr (.inr hnm)⟩)
    · exact .rel _ _ (.inr hnm)

end QueryGraph

end Subplans
