import Subplans.Proofs.Graph.Changes
import Subplans.Proofs.Graph.Components

/-!
The traversal of a query graph is a depth-first search.

The stack holds neighbours of the listed nodes, those of the latest node on top (`Pending`). Entries are stale once
their node is listed, and no neighbour that is not listed is missing. So the walk goes on next to the latest listed node
that has a neighbour which is not listed, and starts anew only where there is none (`searches_walkFrom`).
-/

namespace Subplans.QueryGraph

open Relation

variable {g : QueryGraph} {n m e next start : Nat} {listed listed' stack rest nodes done starts es : List Nat} {x : Edge}
  {visits visits' before after : List (Nat × List Nat)}

-- For each of the nodes the stack holds some of its neighbours, among them all that are not listed.
inductive Pending (g : QueryGraph) (listed : List Nat) : List Nat → List Nat → Prop
  | nil : Pending g listed [] []
  | cons {n : Nat} {nodes part stack : List Nat} : part ⊆ g.neighbors n → (∀ m ∈ g.neighbors n, m ∈ listed ∨ m ∈ part) →
    Pending g listed nodes stack → Pending g listed (n :: nodes) (part ++ stack)

namespace Pending

theorem mono (h : g.Pending listed nodes stack) (hsub : listed ⊆ listed') : g.Pending listed' nodes stack := by
  induction h
  case nil => exact .nil
  case cons hpart hall _ ih => exact .cons hpart (fun m hm => (hall m hm).imp_left (@hsub m)) ih

-- A node that is listed is not needed on the stack.
theorem pop (h : g.Pending listed nodes (next :: rest)) (hnext : next ∈ listed) : g.Pending listed nodes rest := by
  generalize hstack : next :: rest = stack at h
  induction h
  case nil => cases hstack
  case cons n nodes part stack hpart hall htail ih =>
    cases part
    case nil => exact .cons (List.nil_subset _) hall (ih hstack)
    case cons m part =>
      cases hstack
      rw [List.cons_subset] at hpart
      refine .cons hpart.2 (fun m hm => ?_) htail
      rcases hall m hm with hm | hm
      · exact .inl hm
      cases hm
      case head => exact .inl hnext
      case tail hm => exact .inr hm

-- The top of the stack is a neighbour of the first of the nodes that has a neighbour which is not listed.
theorem top (h : g.Pending listed nodes (next :: rest)) :
    ∃ later m earlier, nodes = later ++ m :: earlier ∧ next ∈ g.neighbors m ∧ ∀ k ∈ later, g.Closed listed k := by
  generalize hstack : next :: rest = stack at h
  induction h
  case nil => cases hstack
  case cons n nodes part stack hpart hall htail ih =>
    cases part
    case nil =>
      obtain ⟨later, m, earlier, rfl, hm, hlater⟩ := ih hstack
      have hn : g.Closed listed n := fun m hm => (hall m hm).resolve_right List.not_mem_nil
      exact ⟨n :: later, m, earlier, rfl, hm, List.forall_mem_cons.mpr ⟨hn, hlater⟩⟩
    case cons m part =>
      cases hstack
      exact ⟨[], n, nodes, rfl, hpart List.mem_cons_self, nofun⟩

theorem of_closed (h : ∀ n ∈ nodes, g.Closed listed n) : g.Pending listed nodes [] := by
  induction nodes
  case nil => exact .nil
  case cons n nodes ih =>
    rw [List.forall_mem_cons] at h
    have hcons : g.Pending listed (n :: nodes) ([] ++ []) :=
      .cons (List.nil_subset _) (fun m hm => .inl (h.1 m hm)) (ih h.2)
    exact hcons

-- The neighbours of a node that gets listed are put on top.
theorem push (h : g.Pending (next :: listed) nodes rest) :
    g.Pending (next :: listed) (next :: nodes) ((g.neighbors next).reverse ++ rest) :=
  .cons (List.reverse_subset.mpr (List.Subset.refl _)) (fun _ hm => .inr (List.mem_reverse.mpr hm)) h

end Pending

-- The node is the one to visit next. All neighbours of listed nodes are listed and it is the first that is not, or it
-- is a neighbour of the latest listed node that has a neighbour which is not listed.
inductive Next (g : QueryGraph) (listed : List Nat) (n : Nat) : Prop
  | start {done rest : List Nat} : (∀ m ∈ listed, g.Closed listed m) → g.nodes = done ++ n :: rest → done ⊆ listed →
    n ∉ listed → Next g listed n
  | step {later earlier : List Nat} {m : Nat} : listed = later ++ m :: earlier → n ∈ g.neighbors m →
    (∀ k ∈ later, g.Closed listed k) → n ∉ listed → Next g listed n

theorem Next.new (h : g.Next listed n) : n ∉ listed := by
  cases h <;> assumption

inductive Searches (g : QueryGraph) : List Nat → List (Nat × List Nat) → Prop
  | nil {listed : List Nat} : Searches g listed []
  | cons {listed : List Nat} {n : Nat} {visits : List (Nat × List Nat)} :
    g.Next listed n → Searches g (n :: listed) visits → Searches g listed ((n, g.edgesTo listed n) :: visits)

namespace Searches

theorem append (h : g.Searches listed visits) (h' : g.Searches (listing listed visits) visits') :
    g.Searches listed (visits ++ visits') := by
  induction h
  case nil => simpa [listing] using h'
  case cons hn _ ih =>
    rw [listing_cons] at h'
    exact .cons hn (ih h')

theorem visit (h : g.Searches listed (before ++ (n, es) :: after)) :
    g.Next (listing listed before) n ∧ es = g.edgesTo (listing listed before) n := by
  induction before generalizing listed
  case nil =>
    cases h
    case cons hn _ => exact ⟨by simpa [listing] using hn, by simp [listing]⟩
  case cons v before ih =>
    cases h
    case cons h =>
      rw [listing_cons]
      exact ih h

end Searches

theorem searches_walk (hg : g.Linked) (hs : ∀ n ∈ stack, g.contains n = true) (hp : g.Pending listed listed stack) :
    g.Searches listed (g.walk listed stack).1 := by
  fun_induction walk g listed stack
  case case1 => exact .nil
  case case2 listed next rest hnext _ visits listed' heq ih =>
    have hcontains : ∀ m ∈ (g.neighbors next).reverse ++ rest, g.contains m = true := by
      intro m hm
      rcases List.mem_append.mp hm with hm | hm
      · exact hg.contains_neighbor (List.mem_reverse.mp hm)
      · exact hs m (List.mem_cons_of_mem _ hm)
    have hrest : g.Pending (next :: listed) listed rest :=
      (hp.mono (List.subset_cons_self next listed)).pop List.mem_cons_self
    have ih := ih hcontains hrest.push
    rw [heq] at ih
    obtain ⟨later, m, earlier, hlisted, hm, hlater⟩ := hp.top
    exact .cons (.step hlisted hm hlater hnext.2) ih
  case case3 listed next rest hnext ih =>
    -- Nodes that are there have an address, so this one has been listed.
    have hlisted : next ∈ listed := by
      by_contra hnot
      exact hnext ⟨lt_of_contains (hs next List.mem_cons_self), hnot⟩
    exact ih (fun m hm => hs m (List.mem_cons_of_mem _ hm)) (hp.pop hlisted)

theorem searches_walkFrom (hg : g.Linked) (hnodes : g.nodes = done ++ starts) (hdone : done ⊆ listed)
    (hc : ∀ n ∈ listed, g.Closed listed n) : g.Searches listed (g.walkFrom listed starts) := by
  induction starts generalizing done listed
  case nil => exact .nil
  case cons start rest ih =>
    have hnodes' : g.nodes = (done ++ [start]) ++ rest := by simp [hnodes]
    by_cases hmem : start ∈ listed
    case pos =>
      have heq : g.walkFrom listed (start :: rest) = g.walkFrom listed rest := by simp [walkFrom, hmem]
      rw [heq]
      exact ih hnodes' (List.append_subset.mpr ⟨hdone, by simpa using hmem⟩) hc
    case neg =>
      have hneighbors : ∀ m ∈ (g.neighbors start).reverse, g.contains m = true :=
        fun m hm => hg.contains_neighbor (List.mem_reverse.mp hm)
      have hpending : g.Pending (start :: listed) (start :: listed) ((g.neighbors start).reverse) := by
        simpa using ((Pending.of_closed hc).mono (List.subset_cons_self start listed)).push
      have hsearches := searches_walk hg hneighbors hpending
      have hwalk : Walked g (start :: listed) _ _ := walked_walk hg hneighbors
      have heq : g.walkFrom listed (start :: rest) =
          (start, []) :: (g.walk (start :: listed) (g.neighbors start).reverse).1 ++
            g.walkFrom (g.walk (start :: listed) (g.neighbors start).reverse).2 rest := by
        simp [walkFrom, hmem]
      rw [heq]
      generalize g.walk (start :: listed) (g.neighbors start).reverse = r at hwalk hsearches
      have hfirst : g.Searches listed ((start, []) :: r.1) :=
        edgesTo_of_closed hg hc hmem ▸ .cons (.start hc hnodes hdone hmem) hsearches
      have hlisting : listing listed ((start, []) :: r.1) = r.2 := listing_cons.trans hwalk.listing.symm
      have hgrow : done ++ [start] ⊆ r.2 := by
        intro m hm
        rw [hwalk.listing, mem_listing]
        rcases List.mem_append.mp hm with hm | hm
        · exact .inr (List.mem_cons_of_mem _ (hdone hm))
        · exact .inr (List.mem_singleton.mp hm ▸ List.mem_cons_self)
      refine hfirst.append ?_
      rw [hlisting]
      exact ih hnodes' hgrow (hwalk.closed_component hc)

theorem Linked.searches_traverse (hg : g.Linked) : g.Searches [] g.traverse :=
  searches_walkFrom hg (List.nil_append g.nodes).symm (List.nil_subset []) nofun

-- Both ends of an edge are in the list.
def BothIn (x : Edge) (listed : List Nat) : Prop :=
  x.source ∈ listed ∧ x.target ∈ listed

instance : Decidable (BothIn x listed) :=
  inferInstanceAs (Decidable (_ ∧ _))

-- An edge is reported when the second of its ends gets listed.
theorem WellFormed.count_edgesTo (hg : g.WellFormed) (hx : g.edge? e = some x) (hne : x.source ≠ x.target)
    (hn : n ∉ listed) : (g.edgesTo listed n).count e + (if BothIn x listed then 1 else 0) =
      if BothIn x (n :: listed) then 1 else 0 := by
  have hcount : (g.incident n).count e = (if x.source = n then 1 else 0) + (if x.target = n then 1 else 0) := by
    simp [incident, hg.count_outgoing, hg.count_incoming, hx]
  by_cases hends : x.source ∈ listed ∨ x.target ∈ listed
  case pos =>
    rw [edgesTo, List.count_filter (by simpa [hx] using hends), hcount]
    simp only [BothIn, List.mem_cons]
    grind
  case neg =>
    have hnone : (g.edgesTo listed n).count e = 0 := by
      rw [List.count_eq_zero]
      intro he
      obtain ⟨y, hy, -, hlisted⟩ := hg.linked.mem_edgesTo.mp he
      cases hx.symm.trans hy
      exact hends hlisted
    simp only [hnone, BothIn, List.mem_cons]
    grind

theorem Visits.count (h : g.Visits listed visits) (hg : g.WellFormed) (hx : g.edge? e = some x)
    (hne : x.source ≠ x.target) : (visits.flatMap Prod.snd).count e + (if BothIn x listed then 1 else 0) =
      if BothIn x (listing listed visits) then 1 else 0 := by
  induction h
  case nil => simp [listing]
  case cons hn _ ih =>
    have hstep := hg.count_edgesTo hx hne hn
    rw [listing_cons, ← ih, ← hstep, List.flatMap_cons, List.count_append]
    exact (Nat.add_right_comm _ _ _).trans (Nat.add_comm _ _)

-- Of each edge that is reported one end is visited and the other one, a different node, has been listed before.
theorem Searches.later_end (h : g.Searches [] (before ++ (n, es) :: after)) (hg : g.Linked) (he : e ∈ es) :
    ∃ x, g.edge? e = some x ∧ x.source ≠ x.target ∧
      ((x.source = n ∧ x.target ∈ before.map Prod.fst) ∨ (x.target = n ∧ x.source ∈ before.map Prod.fst)) := by
  have ⟨hnext, hes⟩ := h.visit
  obtain ⟨x, hx, hends, hlisted⟩ := hg.mem_edgesTo.mp (hes ▸ he)
  have hnew := hnext.new
  simp only [mem_listing, List.not_mem_nil, or_false] at hnew hlisted
  rcases hends with rfl | rfl
  case inl =>
    have htarget := hlisted.resolve_left hnew
    exact ⟨x, hx, fun heq => hnew (heq ▸ htarget), .inl ⟨rfl, htarget⟩⟩
  case inr =>
    have hsource := hlisted.resolve_right hnew
    exact ⟨x, hx, fun heq => hnew (heq ▸ hsource), .inr ⟨rfl, hsource⟩⟩

-- The first visit to a component: no listed node is connected with the node, nor is any that was added before it.
structure Begins (g : QueryGraph) (listed : List Nat) (n : Nat) (es : List Nat) : Prop where
  first    : ∀ m ∈ listed, ¬g.Connects n m
  earliest : ∃ done rest, g.nodes = done ++ n :: rest ∧ ∀ m ∈ done, ¬g.Connects n m
  edges    : es = []

-- An edge leads from one of the nodes to the other one.
def Neighboring (g : QueryGraph) (n m : Nat) : Prop :=
  g.Adjacent n m ∨ g.Adjacent m n

-- A further visit to a component: the node is next to `m`, and all nodes listed later than that have all nodes next to
-- them listed. So `m` is the latest node listed that has a node next to it which is not.
structure Proceeds (g : QueryGraph) (listed : List Nat) (n : Nat) (es : List Nat) : Prop where
  new    : n ∉ listed
  latest : ∃ later m earlier, listed = later ++ m :: earlier ∧ g.Neighboring m n ∧
    ∀ k ∈ later, ∀ l, g.Neighboring k l → l ∈ listed
  edges  : es ≠ []

theorem Linked.neighboring_iff (hg : g.Linked) : g.Neighboring n m ↔ m ∈ g.neighbors n := by
  rw [hg.mem_neighbors, Neighboring, Adjacent, Adjacent]
  constructor
  · rintro (⟨x, hx, hn, hm⟩ | ⟨x, hx, hm, hn⟩)
    · exact ⟨x, hx, .inl ⟨hn, hm⟩⟩
    · exact ⟨x, hx, .inr ⟨hn, hm⟩⟩
  · rintro ⟨x, hx, ⟨hn, hm⟩ | ⟨hn, hm⟩⟩
    · exact .inl ⟨x, hx, hn, hm⟩
    · exact .inr ⟨x, hx, hm, hn⟩

theorem Next.begins_or_proceeds (h : g.Next listed n) (hg : g.Linked) :
    g.Begins listed n (g.edgesTo listed n) ∨ g.Proceeds listed n (g.edgesTo listed n) := by
  cases h
  case start hc hnodes hdone hnew =>
    have hfirst : ∀ m ∈ listed, ¬g.Connects n m := fun m hm hnm => hnew ((hg.mem_listed hc hnm).mpr hm)
    exact .inl ⟨hfirst, ⟨_, _, hnodes, fun m hm => hfirst m (hdone hm)⟩, edgesTo_of_closed hg hc hnew⟩
  case step later earlier m hlisted hm hlater hnew =>
    refine .inr ⟨hnew, ⟨later, m, earlier, hlisted, hg.neighboring_iff.mpr hm, ?_⟩, ?_⟩
    · exact fun k hk l hl => hlater k hk l (hg.neighboring_iff.mp hl)
    · exact hg.edgesTo_ne_nil (by simp [hlisted]) hm

-- Every node is visited once. The first visit to a component is to the node of it that was added first, and has no
-- edges. All other visits have edges, and go on next to the latest node from which they can. An edge between different
-- nodes is reported once, on the visit to the second of its ends, and other edges are not reported.
theorem traverse_depthFirst (hg : g.WellFormed) :
    g.visitOrder.Perm g.nodes ∧
    (∀ before n es after, g.traverse = before ++ (n, es) :: after →
      (g.Begins (before.map Prod.fst).reverse n es ∨ g.Proceeds (before.map Prod.fst).reverse n es) ∧
      ∀ e ∈ es, ∃ x, g.edge? e = some x ∧ x.source ≠ x.target ∧
        ((x.source = n ∧ x.target ∈ before.map Prod.fst) ∨ (x.target = n ∧ x.source ∈ before.map Prod.fst))) ∧
    ∀ e x, g.edge? e = some x → x.source ≠ x.target → (g.traverse.flatMap Prod.snd).count e = 1 := by
  have hlinked := hg.linked
  refine ⟨?_, fun before n es after h => ⟨?_, fun e he => ?_⟩, fun e x hx hne => ?_⟩
  case refine_1 =>
    rw [List.perm_ext_iff_of_nodup hlinked.nodup_visitOrder hlinked.nodup_nodes]
    intro n
    rw [hlinked.mem_nodes, hlinked.mem_visitOrder]
  case refine_2 =>
    obtain ⟨hnext, hes⟩ := (h ▸ hlinked.searches_traverse).visit
    rw [hes]
    simpa [listing] using hnext.begins_or_proceeds hlinked
  case refine_3 => exact (h ▸ hlinked.searches_traverse).later_end hlinked he
  case refine_4 =>
    obtain ⟨hvisits, hall⟩ := hlinked.visits_traverse
    have hmem : ∀ n, g.contains n = true → n ∈ listing [] g.traverse := fun n hn => hall n ((hlinked.mem_nodes n).mpr hn)
    have hboth : BothIn x (listing [] g.traverse) := ⟨hmem _ (hlinked.ends e x hx).1, hmem _ (hlinked.ends e x hx).2⟩
    have hnone : ¬BothIn x [] := fun h => List.not_mem_nil h.1
    have hcount := hvisits.count hg hx hne
    rwa [if_pos hboth, if_neg hnone] at hcount

-- Three nodes in a cycle, two of them joined twice, and two more of which one refers to the other and this to itself.
def cycles : QueryGraph :=
  [(0, 0, 2), (2, 0, 1), (1, 0, 0), (0, 1, 2), (4, 0, 3), (3, 0, 3)].foldl
    (fun g (source, key, target) => (g.addEdge source key target).2)
    ((List.range 5).foldl (fun g _ => (g.addFresh anyRow).2) empty)

theorem wellFormed_cycles : cycles.WellFormed := by
  let P := fun g : QueryGraph => g.WellFormed ∧ ∀ n < 5, g.contains n = true
  have hnodes : P ((List.range 5).foldl (fun g _ => (g.addFresh anyRow).2) empty) :=
    ⟨List.foldlRecOn _ _ .empty fun _ hg _ _ => hg.addFresh, by decide⟩
  refine (List.foldlRecOn (motive := P) _ _ hnodes fun g ⟨hg, hc⟩ e he => ?_).1
  have hends : e.1 < 5 ∧ e.2.2 < 5 := by
    revert e
    decide
  exact ⟨hg.addEdge (hc _ hends.1) (hc _ hends.2), fun n hn => sameNodes_addEdge.contains.trans (hc n hn)⟩

theorem traverse_depthFirst_cycles : cycles.WellFormed ∧ cycles.visitOrder.Perm [0, 1, 2, 3, 4] ∧
    (∀ before n es after, cycles.traverse = before ++ (n, es) :: after →
      cycles.Begins (before.map Prod.fst).reverse n es ∨ cycles.Proceeds (before.map Prod.fst).reverse n es) ∧
    ∀ e < 5, (cycles.traverse.flatMap Prod.snd).count e = 1 := by
  have ⟨hperm, hvisits, hedges⟩ := traverse_depthFirst wellFormed_cycles
  refine ⟨wellFormed_cycles, hperm, fun before n es after h => (hvisits before n es after h).1, fun e he => ?_⟩
  have hends : ∀ e < 5, (cycles.edge? e).any (fun x => x.source != x.target) = true := by decide
  obtain ⟨x, hx, hne⟩ := (Option.any_eq_true _ _).mp (hends e he)
  exact hedges e x hx (by simpa using hne)

end Subplans.QueryGraph
