import Mathlib.Data.List.Induction
import Mathlib.Logic.Relation
import Subplans.Proofs.Merge.Roles
import Subplans.Proofs.Recovery.Justified

/-!
The rounds in which virtual nodes are made one.

Merging adds an edge and then goes from round to round as long as the edge makes a node redundant. In the graphs that a
merger meets each round takes out a virtual node in favour of another one of its table, or leaves out one of two equal
edges, and nothing else is lost (`Sound.reduces`). So the rounds come to an end, where the added edge still leads from
the one node to the other (`merge_rounds`).
-/

namespace Subplans.QueryGraph

open Relation

-- The graph before a round, and the added edge with its ends.
structure Round where
  graph  : QueryGraph
  first  : Nat
  added  : Nat
  second : Nat

variable {s : Schema} {d : SchemaDescription} {g first second : QueryGraph} {key last next target : Nat}
  {natural : Bool} {a b c : ColumnRef} {w : Connection} {r start : Round} {x : Redundancy}
  {joins : List EquivalenceJoin}

namespace Round

-- A step along the key from `last` to `next` begins with its edge.
def ofStep (g : QueryGraph) (key : Nat) (natural : Bool) (last next : Nat) : Round where
  graph := (g.addEdge (if natural then last else next) key (if natural then next else last)).2
  first := if natural then last else next
  added := (g.addEdge (if natural then last else next) key (if natural then next else last)).1
  second := if natural then next else last

def redundancy? (r : Round) : Option Redundancy :=
  r.graph.findRedundant r.first r.added r.second

-- What is left when the redundancy has been dealt with.
def after (r : Round) (x : Redundancy) : Round where
  graph := ((r.graph.collapse x).dedupeEdges r.added).1
  first := x.first
  added := ((r.graph.collapse x).dedupeEdges r.added).2
  second := x.second

-- One round follows another.
def Follows (r r' : Round) : Prop :=
  ∃ x, r.redundancy? = some x ∧ r' = r.after x

-- The graph and the ends of the added edge when all rounds are over.
def outcome (r : Round) : QueryGraph × Nat × Nat :=
  r.graph.mergeVirtual r.first r.added r.second

theorem addStep_eq : g.addStep key natural last next =
    ((ofStep g key natural last next).outcome.1, if natural then (ofStep g key natural last next).outcome.2.2
      else (ofStep g key natural last next).outcome.2.1) := by
  cases natural <;> rfl

-- The graph is well-formed, and the added edge leads along its key from the one node to the other.
structure Intact (key : Nat) (r : Round) : Prop where
  wellFormed : r.graph.WellFormed
  first      : r.graph.contains r.first = true
  second     : r.graph.contains r.second = true
  added      : r.graph.edge? r.added = some ⟨r.first, key, r.second⟩

-- The round leaves fewer nodes or edges. A node that it takes out is virtual, and one of its table takes its place.
structure Reduces (r : Round) (x : Redundancy) : Prop where
  nodes   : (r.after x).graph.nodes ⊆ r.graph.nodes
  edges   : (r.after x).graph.edgeIds ⊆ r.graph.edgeIds
  fewer   : (∃ n ∈ r.graph.nodes, n ∉ (r.after x).graph.nodes) ∨
    ∃ e ∈ r.graph.edgeIds, e ∉ (r.after x).graph.edgeIds
  dropped : ∀ n ∈ r.graph.nodes, n ∉ (r.after x).graph.nodes → n = x.drop
  virtual : r.graph.isVirtual x.drop = true
  kept    : x.keep ∈ (r.after x).graph.nodes
  table   : r.graph.table? x.drop = r.graph.table? x.keep
  hasEdge : ∀ y, (r.after x).graph.HasEdge y ↔ ∃ z, r.graph.HasEdge z ∧ z.map (rename x.drop x.keep) = y

-- The edges of the graph lead between the tables of their keys.
structure Sound (s : Schema) (key : Nat) (r : Round) : Prop where
  grounded : r.graph.Grounded s
  added    : r.graph.edge? r.added = some ⟨r.first, key, r.second⟩

namespace Sound

theorem intact (h : r.Sound s key) : r.Intact key where
  wellFormed := h.grounded.wellFormed
  first := h.grounded.wellFormed.contains_source ⟨_, h.added⟩
  second := h.grounded.wellFormed.contains_target ⟨_, h.added⟩
  added := h.added

theorem after (h : r.Sound s key) (hx : r.redundancy? = some x) : (r.after x).Sound s key :=
  have ⟨_, hgrounded, hadded, _⟩ := fuses_step h.grounded h.added hx rfl
  ⟨hgrounded, hadded⟩

theorem reduces (h : r.Sound s key) (hx : r.redundancy? = some x) : r.Reduces x := by
  have hwf := h.grounded.wellFormed
  have hwf' := (h.after hx).grounded.wellFormed
  obtain ⟨hfuses, -⟩ : Fuses r.graph (r.after x).graph (rename x.drop x.keep) ∧ _ :=
    fuses_step h.grounded h.added hx rfl
  obtain ⟨id, e, y, -, he, hy, -, hredundant⟩ := redundant_of_findRedundant hx
  cases h.added.symm.trans hy
  have hdrop := contains_of_isVirtual hredundant.virtual
  have hkeep := hredundant.contains_keep hwf ⟨id, he⟩ ⟨r.added, h.added⟩
  have hkept : (r.after x).graph.contains x.keep = true := by
    have hplace := hfuses.contains x.drop hdrop
    rwa [rename_self] at hplace
  have hnodes : (r.after x).graph.nodes = (r.graph.collapse x).nodes := deduped_dedupeEdges.sameNodes.nodes
  have hedges : (r.after x).graph.edgeIds ⊆ r.graph.edgeIds := by
    intro e he
    obtain ⟨y, hy⟩ := Option.isSome_iff_exists.mp (mem_edgeIds.mp he)
    exact mem_edgeIds.mpr (edge?_of_round hwf.wired (lt_of_contains hkeep) hy)
  constructor
  case nodes => exact hnodes ▸ nodes_collapse_subset hredundant.virtual
  case edges => exact hedges
  case fewer =>
    by_contra hall
    obtain ⟨hallNodes, hallEdges⟩ := not_or.mp hall
    have hnodes : r.graph.nodes ⊆ (r.after x).graph.nodes := fun n hn => by_contra fun h => hallNodes ⟨n, hn, h⟩
    have hedges : r.graph.edgeIds ⊆ (r.after x).graph.edgeIds := fun e he => by_contra fun h => hallEdges ⟨e, he, h⟩
    have hle := (List.subperm_of_subset hwf.nodup_nodes hnodes).length_le
    have hle' := (List.subperm_of_subset nodup_edgeIds hedges).length_le
    have hsize : (r.after x).graph.size < r.graph.size := size_round hwf h.added hx
    rw [size, size] at hsize
    omega
  case dropped =>
    intro n hn hgone
    by_contra hne
    exact hgone (hnodes ▸ mem_nodes_collapse hredundant.virtual hn hne)
  case virtual => exact hredundant.virtual
  case kept => exact (hwf'.mem_nodes _).mpr hkept
  case table =>
    have htable := hfuses.table? x.drop hdrop
    have htable' := hfuses.table? x.keep hkeep
    rw [rename_self] at htable
    rw [rename_new] at htable'
    exact htable.symm.trans htable'
  case hasEdge => exact hfuses.hasEdge

end Sound

-- What a round keeps holds in all rounds to come.
theorem Sound.of_reflTransGen (h : start.Sound s key) (hr : ReflTransGen Follows start r) : r.Sound s key := by
  induction hr
  case refl => exact h
  case tail hfollows ih =>
    obtain ⟨x, hx, rfl⟩ := hfollows
    exact ih.after hx

theorem Sound.exists_last (h : start.Sound s key) : ∃ last, ReflTransGen Follows start last ∧
    last.redundancy? = none ∧ start.outcome = (last.graph, last.first, last.second) := by
  let P (g : QueryGraph) (first added second : Nat) : Prop :=
    ReflTransGen Follows start ⟨g, first, added, second⟩ ∧ Sound s key ⟨g, first, added, second⟩
  have hround : ∀ {g first added second x}, P g first added second → g.findRedundant first added second = some x →
      P ((g.collapse x).dedupeEdges added).1 x.first ((g.collapse x).dedupeEdges added).2 x.second ∧
        ((g.collapse x).dedupeEdges added).1.size < g.size := by
    intro g first added second x ⟨hreaches, hsound⟩ hx
    exact ⟨⟨hreaches.tail ⟨x, hx, rfl⟩, hsound.after hx⟩, size_round hsound.grounded.wellFormed hsound.added hx⟩
  have hstart : P start.graph start.first start.added start.second := ⟨.refl, h⟩
  obtain ⟨added, ⟨hreaches, _⟩, hnone⟩ := mergeVirtual_end hround hstart
  exact ⟨_, hreaches, hnone, rfl⟩

end Round

-- On the way of a connection the rounds start once for each of its steps, with a new virtual node for each table.
inductive Starts (s : Schema) (target : Nat) :
    QueryGraph → (last : Nat) → (pending : Option (Nat × Bool)) → Connection → Round → Prop
  | last {g : QueryGraph} {last key : Nat} {natural : Bool} :
    Starts s target g last (some (key, natural)) [] (.ofStep g key natural last target)
  | join {g : QueryGraph} {last key : Nat} {natural : Bool} {pending : Option (Nat × Bool)} {w : Connection}
    {start : Round} : Starts s target g last (some (key, natural)) w start →
    Starts s target g last pending (.join key natural :: w) start
  | table {g : QueryGraph} {last key t : Nat} {natural : Bool} {w : Connection} :
    Starts s target g last (some (key, natural)) (.table t :: w)
      (.ofStep (g.addFresh (.virtual s t)).2 key natural last g.slots.length)
  | next {g : QueryGraph} {last key t : Nat} {natural : Bool} {w : Connection} {start : Round} :
    Starts s target ((g.addFresh (.virtual s t)).2.addStep key natural last g.slots.length).1
      ((g.addFresh (.virtual s t)).2.addStep key natural last g.slots.length).2 (some (key, natural)) w start →
    Starts s target g last (some (key, natural)) (.table t :: w) start
  | skip {g : QueryGraph} {last t : Nat} {w : Connection} {start : Round} : Starts s target g last none w start →
    Starts s target g last none (.table t :: w) start

-- Both graphs side by side, and the places of their nodes.
def sideBySide (first second : QueryGraph) : QueryGraph :=
  ((empty.copyInto first).1.copyInto second).1

def firstPlace (first : QueryGraph) : Nat → Nat :=
  placeOf (empty.copyInto first).2

def secondPlace (first second : QueryGraph) : Nat → Nat :=
  placeOf ((empty.copyInto first).1.copyInto second).2

-- A merger meets the rounds of one join after the other.
def Meets (s : Schema) (first second : QueryGraph) (joins : List EquivalenceJoin) (start : Round) : Prop :=
  ∃ before j after, joins = before ++ j :: after ∧
    Starts s (secondPlace first second j.second) (merge s first second before) (firstPlace first j.first) none
      j.connection start

-- What a connection comes to is the outcome of the last of its rounds.
theorem addConnection_outcome {pending : Option (Nat × Bool)} : addConnection s target g last pending w = g ∨
    ∃ start, Starts s target g last pending w start ∧ addConnection s target g last pending w = start.outcome.1 := by
  fun_induction addConnection s target g last pending w
  case case1 => exact .inr ⟨_, .last, congrArg Prod.fst Round.addStep_eq⟩
  case case2 => exact .inl rfl
  case case3 ih =>
    rcases ih with heq | ⟨start, hstarts, heq⟩
    case inl => exact .inl heq
    case inr => exact .inr ⟨start, .join hstarts, heq⟩
  case case4 g last key natural t _ next fresh hfresh step arrived heq ih =>
    have hnext : g.slots.length = next := congrArg Prod.fst hfresh
    have hgraph : (g.addFresh (.virtual s t)).2 = fresh := congrArg Prod.snd hfresh
    subst hnext hgraph
    have hstep : ((g.addFresh (.virtual s t)).2.addStep key natural last g.slots.length).1 = step :=
      congrArg Prod.fst heq
    have hlast : ((g.addFresh (.virtual s t)).2.addStep key natural last g.slots.length).2 = arrived :=
      congrArg Prod.snd heq
    subst hstep hlast
    rcases ih with houtcome | ⟨start, hstarts, houtcome⟩
    case inl => exact .inr ⟨_, .table, houtcome.trans (congrArg Prod.fst Round.addStep_eq)⟩
    case inr => exact .inr ⟨start, .next hstarts, houtcome⟩
  case case5 ih =>
    rcases ih with heq | ⟨start, hstarts, heq⟩
    case inl => exact .inl heq
    case inr => exact .inr ⟨start, .skip hstarts, heq⟩

theorem merge_outcome : merge s first second joins = sideBySide first second ∨
    ∃ start, Meets s first second joins start ∧ merge s first second joins = start.outcome.1 := by
  induction joins using List.reverseRecOn
  case nil => exact .inl rfl
  case append_singleton joins j ih =>
    have hmerge : merge s first second (joins ++ [j]) = addConnection s (secondPlace first second j.second)
        (merge s first second joins) (firstPlace first j.first) none j.connection :=
      List.foldl_append
    rw [hmerge]
    rcases addConnection_outcome with heq | ⟨start, hstarts, heq⟩
    case inr => exact .inr ⟨start, ⟨joins, j, [], rfl, hstarts⟩, heq⟩
    case inl =>
      rw [heq]
      rcases ih with heq | ⟨start, ⟨before, i, after, rfl, hstarts⟩, heq⟩
      case inl => exact .inl heq
      case inr => exact .inr ⟨start, ⟨before, i, after ++ [j], by simp, hstarts⟩, heq⟩

theorem Round.sound_ofStep (hs : s.Loaded) (ha : Arrived s g last a) (hk : Crossing s key natural a b)
    (hn : g.table? next = some b.table) (hb : g.Takes s next b) (hne : last = next → g.isVirtual last = false) :
    (ofStep g key natural last next).Sound s key where
  grounded := ha.addEdge hs hk hn hb hne
  added := edge?_addEdge.trans (if_pos rfl)

theorem Starts.sound (hs : s.Loaded) (hw : Walk (Crossing s) a w c) {pending : Option (Nat × Bool)}
    (ha : Arrived s g last a) (ht : target ∈ g.realNodes) (hc : g.table? target = some c.table)
    (h : Starts s target g last pending w start) : ∃ key, start.Sound s key := by
  induction hw generalizing g last pending
  case single hk =>
    cases h
    case join h =>
      cases h
      have hreal := (ha.grounded.wellFormed.mem_realNodes.mp ht).2
      have htakes : ∀ b, g.Takes s target b := fun _ hv => by simp [hreal] at hv
      exact ⟨_, Round.sound_ofStep hs ha hk hc (htakes _) fun heq => heq ▸ hreal⟩
  case cons hk hw ih =>
    cases h
    case join h =>
      cases h
      case table =>
        exact ⟨_, Round.sound_ofStep hs ha.addFresh hk table?_addFresh_length (takes_addFresh ha.grounded.wellFormed)
          fun heq => absurd heq ha.ne_length⟩
      case next h =>
        have hpassed := passed_addStep hs ha hk
        have ht' := hpassed.keeps.realNodes ▸ ht
        exact ih hpassed.arrived ht' ((hpassed.keeps.table? ht).trans hc) h

section

variable (hs : s.Loaded) (hk : ∀ key ∈ s.keys, key.pairs.length = 1)

include hs hk

theorem Resolved.spanned {j : EquivalenceJoin} (hf : first.WellFormed) (hg : second.WellFormed)
    (hj : Resolved s first second j) : ∃ c d, Spanned s first second j c d := by
  obtain ⟨left, right, h⟩ := hj
  obtain ⟨c, d, -, hspanned, -⟩ := Recovery.spanned_of_resolve hs (.inr hk) hf hg h
  exact ⟨c, d, hspanned⟩

theorem Built.grounded (hg : Built s g) : g.Grounded s := by
  induction hg
  case single g n hwf hnodes hreal hnone =>
    exact ⟨hwf, fun x hx => absurd hx (hnone x), .inr (Built.single hwf hnodes hreal hnone |>.tidy hs hk)⟩
  case merge hj ihf ihs =>
    obtain ⟨_, _, h⟩ := assembled_merge hs ihf ihs fun j hmem => (hj j hmem).spanned hs hk ihf.wellFormed ihs.wellFormed
    exact h.grounded

theorem Meets.sound (hf : first.Grounded s) (hg : second.Grounded s) (hj : ∀ j ∈ joins, Resolved s first second j)
    (h : Meets s first second joins start) : ∃ key, start.Sound s key := by
  obtain ⟨before, j, after, rfl, hstarts⟩ := h
  have h₁ : Copied empty first (empty.copyInto first).1 (firstPlace first) := copied_copyInto .empty hf.wellFormed
  have h₂ : Copied (empty.copyInto first).1 second (sideBySide first second) (secondPlace first second) :=
    copied_copyInto h₁.wellFormed hg.wellFormed
  have hunites := Unites.of_copied hf.wellFormed hg.wellFormed h₁ h₂
  have hplaced : ∀ j' ∈ before ++ j :: after, ∃ c d, Spanned s (sideBySide first second) (sideBySide first second)
      (placedJoin (firstPlace first) (secondPlace first second) j') c d := by
    intro j' hmem
    obtain ⟨c, d, hspanned⟩ := (hj j' hmem).spanned hs hk hf.wellFormed hg.wellFormed
    exact ⟨c, d, hunites.spanned hspanned⟩
  have hbridged : Bridged s (sideBySide first second) (merge s first second before) _ :=
    bridged_foldl hs (h₂.grounded (h₁.grounded .empty hf) hg) fun j' hmem => hplaced j' (List.mem_append_left _ hmem)
  obtain ⟨c, d, hspanned⟩ := hplaced j (by simp)
  have hspanned := hspanned.keeps hbridged.keeps
  exact hstarts.sound hs hspanned.walk (hspanned.arrived hbridged.grounded) hspanned.second_mem hspanned.target

end

theorem merge_rounds (hd : Schema.ofDescription d = .ok s) (hk : ∀ key ∈ s.keys, key.pairs.length = 1)
    (hf : Built s first) (hg : Built s second) (hj : ∀ j ∈ joins, Resolved s first second j)
    (hstart : Meets s first second joins start) :
    ∃ key, (∀ r, ReflTransGen Round.Follows start r →
        r.Intact key ∧ ∀ x, r.redundancy? = some x → r.Reduces x) ∧
      ∃ last, ReflTransGen Round.Follows start last ∧ last.redundancy? = none ∧
        start.outcome = (last.graph, last.first, last.second) := by
  have hs := Schema.loaded_of_ofDescription hd
  obtain ⟨key, hsound⟩ := hstart.sound hs hk (hf.grounded hs hk) (hg.grounded hs hk) hj
  refine ⟨key, fun r hr => ?_, hsound.exists_last⟩
  have hr := hsound.of_reflTransGen hr
  exact ⟨hr.intact, fun x hx => hr.reduces hx⟩

-- On the way from the link to another information a second film comes up: it takes the place of the first one.
def secondFilm : Round :=
  .ofStep ((merge filmsSchema sameFilm (alone 2 "mj") []).addFresh (.virtual filmsSchema 0)).2 0 true
    (firstPlace sameFilm 0) (merge filmsSchema sameFilm (alone 2 "mj") []).slots.length

theorem merge_rounds_sameFilm : Schema.ofDescription films = .ok filmsSchema ∧
    (∀ key ∈ filmsSchema.keys, key.pairs.length = 1) ∧ Built filmsSchema sameFilm ∧
    Built filmsSchema (alone 2 "mj") ∧ (∀ j ∈ [throughFilm], Resolved filmsSchema sameFilm (alone 2 "mj") j) ∧
    Meets filmsSchema sameFilm (alone 2 "mj") [throughFilm] secondFilm ∧
    secondFilm.redundancy? = some ⟨4, 2, 0, 4⟩ ∧ secondFilm.Reduces ⟨4, 2, 0, 4⟩ ∧
    ∃ key last, ReflTransGen Round.Follows secondFilm last ∧ last.redundancy? = none ∧ last.Intact key ∧
      secondFilm.outcome = (last.graph, last.first, last.second) := by
  have hd : Schema.ofDescription films = .ok filmsSchema := rfl
  have hk : ∀ key ∈ filmsSchema.keys, key.pairs.length = 1 := by decide +kernel
  have hj : ∀ j ∈ [throughFilm], Resolved filmsSchema sameFilm (alone 2 "mj") j := by
    simpa using resolved_throughFilm.2 "mj" (by simp)
  have hmeets : Meets filmsSchema sameFilm (alone 2 "mj") [throughFilm] secondFilm :=
    ⟨[], throughFilm, [], rfl, .join .table⟩
  have hredundancy : secondFilm.redundancy? = some ⟨4, 2, 0, 4⟩ := by decide +kernel
  obtain ⟨key, hrounds, last, hlast, hnone, houtcome⟩ := merge_rounds hd hk built_sameFilm built_alone hj hmeets
  exact ⟨hd, hk, built_sameFilm, built_alone, hj, hmeets, hredundancy, (hrounds _ .refl).2 _ hredundancy, key, last,
    hlast, hnone, (hrounds last hlast).1, houtcome⟩

end Subplans.QueryGraph
