import Subplans.Proofs.Graph.WellFormed
import Subplans.Query.Traversal

/-!
What the traversal of a query graph lists.

Every node is listed once, with the edges that link it to nodes listed before, and with no others
(`Linked.visits_traverse`, `Linked.mem_visitOrder`). This needs of a graph only that its lists of nodes and edges are
in step with each other (`Linked`); aliases do not matter.
-/

namespace Subplans.QueryGraph

variable {g : QueryGraph} {n m e : Nat} {x : Edge} {listed stack starts : List Nat}
  {visits visits' : List (Nat × List Nat)}

-- What well-formed graphs are apart from aliases: the nodes that are there are listed once, and an edge lies
-- between two of them and stands in the lists of both.
structure Linked (g : QueryGraph) : Prop where
  mem_nodes    : ∀ n, n ∈ g.nodes ↔ g.contains n = true
  nodup_nodes  : g.nodes.Nodup
  ends         : ∀ e x, g.edge? e = some x → g.contains x.source = true ∧ g.contains x.target = true
  mem_outgoing : ∀ n e, e ∈ g.outgoing n ↔ ∃ x, g.edge? e = some x ∧ x.source = n
  mem_incoming : ∀ n e, e ∈ g.incoming n ↔ ∃ x, g.edge? e = some x ∧ x.target = n

theorem WellFormed.linked (hg : g.WellFormed) : g.Linked where
  mem_nodes := hg.mem_nodes
  nodup_nodes := hg.nodup_nodes
  ends := hg.source_mem
  mem_outgoing := hg.wired.mem_outgoing
  mem_incoming := hg.wired.mem_incoming

namespace Linked

theorem mem_incident (hg : g.Linked) :
    e ∈ g.incident n ↔ ∃ x, g.edge? e = some x ∧ (x.source = n ∨ x.target = n) := by
  simp only [incident, List.mem_append, hg.mem_outgoing, hg.mem_incoming, and_or_left, exists_or]

theorem mem_neighbors (hg : g.Linked) :
    m ∈ g.neighbors n ↔ ∃ x, g.HasEdge x ∧ ((x.source = n ∧ x.target = m) ∨ (x.target = n ∧ x.source = m)) := by
  simp only [neighbors, List.mem_append, List.mem_filterMap, hg.mem_outgoing, hg.mem_incoming, HasEdge]
  constructor
  · rintro (⟨e, ⟨x, hx, hn⟩, hm⟩ | ⟨e, ⟨x, hx, hn⟩, hm⟩)
    · exact ⟨x, ⟨e, hx⟩, .inl ⟨hn, by simpa [hx] using hm⟩⟩
    · exact ⟨x, ⟨e, hx⟩, .inr ⟨hn, by simpa [hx] using hm⟩⟩
  · rintro ⟨x, ⟨e, hx⟩, ⟨hn, hm⟩ | ⟨hn, hm⟩⟩
    · exact .inl ⟨e, ⟨x, hx, hn⟩, by simp [hx, hm]⟩
    · exact .inr ⟨e, ⟨x, hx, hn⟩, by simp [hx, hm]⟩

theorem contains_neighbor (hg : g.Linked) (h : m ∈ g.neighbors n) : g.contains m = true := by
  obtain ⟨x, ⟨e, hx⟩, ⟨-, rfl⟩ | ⟨-, rfl⟩⟩ := hg.mem_neighbors.mp h
  case inl => exact (hg.ends e x hx).2
  case inr => exact (hg.ends e x hx).1

theorem mem_edgesTo (hg : g.Linked) : e ∈ g.edgesTo listed n ↔
    ∃ x, g.edge? e = some x ∧ (x.source = n ∨ x.target = n) ∧ (x.source ∈ listed ∨ x.target ∈ listed) := by
  simp only [edgesTo, List.mem_filter, hg.mem_incident, Option.any_eq_true, Bool.or_eq_true,
    List.contains_iff_mem]
  constructor
  · rintro ⟨⟨x, hx, hn⟩, y, hy, hm⟩
    cases hx.symm.trans hy
    exact ⟨x, hx, hn, hm⟩
  · rintro ⟨x, hx, hn, hm⟩
    exact ⟨⟨x, hx, hn⟩, x, hx, hm⟩

end Linked

-- The visits go on from the nodes that are listed, the latest first. Each is to a node that is not listed, with
-- its edges to those that are.
inductive Visits (g : QueryGraph) : List Nat → List (Nat × List Nat) → Prop
  | nil {listed : List Nat} : Visits g listed []
  | cons {listed : List Nat} {n : Nat} {visits : List (Nat × List Nat)} :
    g.contains n = true → n ∉ listed → Visits g (n :: listed) visits →
    Visits g listed ((n, g.edgesTo listed n) :: visits)

-- The nodes that are listed after some visits.
def listing (listed : List Nat) (visits : List (Nat × List Nat)) : List Nat :=
  (visits.map Prod.fst).reverse ++ listed

theorem listing_cons {es : List Nat} : listing listed ((n, es) :: visits) = listing (n :: listed) visits := by
  simp [listing]

theorem mem_listing : n ∈ listing listed visits ↔ n ∈ visits.map Prod.fst ∨ n ∈ listed := by
  rw [listing, List.mem_append, List.mem_reverse]

theorem Visits.append (h : g.Visits listed visits) (h' : g.Visits (listing listed visits) visits') :
    g.Visits listed (visits ++ visits') := by
  induction h
  case nil => simpa [listing] using h'
  case cons hn hnew _ ih =>
    rw [listing_cons] at h'
    exact .cons hn hnew (ih h')

theorem Visits.nodup (h : g.Visits listed visits) (hl : listed.Nodup) : (listing listed visits).Nodup := by
  induction h
  case nil => simpa [listing] using hl
  case cons hnew _ ih =>
    rw [listing_cons]
    exact ih (List.nodup_cons.mpr ⟨hnew, hl⟩)

theorem Visits.contains (h : g.Visits listed visits) (hn : n ∈ visits.map Prod.fst) : g.contains n = true := by
  induction h
  case nil => cases hn
  case cons hc _ _ ih =>
    cases hn
    case head => exact hc
    case tail hn => exact ih hn

-- A node that is listed has all its neighbours listed.
def Closed (g : QueryGraph) (listed : List Nat) (n : Nat) : Prop :=
  ∀ m ∈ g.neighbors n, m ∈ listed

-- What a walk from a stack has listed in the end: the nodes of the stack, and all neighbours of those it came to.
structure Walked (g : QueryGraph) (listed stack : List Nat) (r : List (Nat × List Nat) × List Nat) : Prop where
  visits  : g.Visits listed r.1
  listing : r.2 = listing listed r.1
  stack   : ∀ n ∈ stack, n ∈ r.2
  closed  : ∀ n ∈ r.2, n ∈ listed ∨ g.Closed r.2 n

theorem walked_walk (hg : g.Linked) (hs : ∀ n ∈ stack, g.contains n = true) :
    Walked g listed stack (g.walk listed stack) := by
  fun_induction walk g listed stack
  case case1 listed => exact ⟨.nil, rfl, nofun, fun _ => .inl⟩
  case case2 listed next rest hnext _ visits listed' heq ih =>
    have hnew : ∀ m ∈ (g.neighbors next).reverse ++ rest, g.contains m = true := by
      intro m hm
      rcases List.mem_append.mp hm with hm | hm
      · exact hg.contains_neighbor (List.mem_reverse.mp hm)
      · exact hs m (List.mem_cons_of_mem _ hm)
    have ih := ih hnew
    rw [heq] at ih
    have hlisting : listed' = listing (next :: listed) visits := ih.listing
    have hmem : next ∈ listed' := by simp [hlisting, mem_listing]
    constructor
    case visits => exact .cons (hs next List.mem_cons_self) hnext.2 ih.visits
    case listing => exact hlisting.trans listing_cons.symm
    case stack =>
      intro m hm
      cases hm
      case head => exact hmem
      case tail hm => exact ih.stack m (List.mem_append_right _ hm)
    case closed =>
      intro m hm
      rcases ih.closed m hm with hm | hm
      · cases hm
        case head => exact .inr fun k hk => ih.stack k (List.mem_append_left _ (List.mem_reverse.mpr hk))
        case tail hm => exact .inl hm
      · exact .inr hm
  case case3 listed next rest hnext ih =>
    have ih := ih fun m hm => hs m (List.mem_cons_of_mem _ hm)
    -- Nodes that are there have an address, so this one has been listed.
    have hlisted : next ∈ listed := by
      by_contra hnot
      exact hnext ⟨lt_of_contains (hs next List.mem_cons_self), hnot⟩
    refine ⟨ih.visits, ih.listing, fun m hm => ?_, ih.closed⟩
    cases hm
    case head => simp [ih.listing, mem_listing, hlisted]
    case tail hm => exact ih.stack m hm

-- A component starts with a node that has no edges to those before.
theorem edgesTo_of_closed (hg : g.Linked) (hc : ∀ n ∈ listed, g.Closed listed n) (hn : n ∉ listed) :
    g.edgesTo listed n = [] := by
  rw [List.eq_nil_iff_forall_not_mem]
  intro e he
  obtain ⟨x, hx, hends, hother⟩ := hg.mem_edgesTo.mp he
  have hneighbor : ∀ m ∈ listed, n ∈ g.neighbors m → False := fun m hm h => hn (hc m hm n h)
  rcases hends with rfl | rfl <;> rcases hother with h | h
  · exact hn h
  · exact hneighbor _ h (hg.mem_neighbors.mpr ⟨x, ⟨e, hx⟩, .inr ⟨rfl, rfl⟩⟩)
  · exact hneighbor _ h (hg.mem_neighbors.mpr ⟨x, ⟨e, hx⟩, .inl ⟨rfl, rfl⟩⟩)
  · exact hn h

-- The walk from the neighbors of a node lists its component.
theorem Walked.closed_component {start : Nat} {r : List (Nat × List Nat) × List Nat}
    (h : Walked g (start :: listed) (g.neighbors start).reverse r) (hc : ∀ n ∈ listed, g.Closed listed n) :
    ∀ n ∈ r.2, g.Closed r.2 n := by
  intro n hn
  rcases h.closed n hn with hl | hl
  case inr => exact hl
  cases hl
  case head => exact fun m hm => h.stack m (List.mem_reverse.mpr hm)
  case tail hl =>
    intro m hm
    rw [h.listing, mem_listing]
    exact .inr (List.mem_cons_of_mem _ (hc n hl m hm))

theorem visits_walkFrom (hg : g.Linked) (hs : ∀ n ∈ starts, g.contains n = true)
    (hc : ∀ n ∈ listed, g.Closed listed n) :
    g.Visits listed (g.walkFrom listed starts) ∧
      ∀ n ∈ starts, n ∈ listing listed (g.walkFrom listed starts) := by
  induction starts generalizing listed
  case nil => exact ⟨.nil, nofun⟩
  case cons start rest ih =>
    have hrest : ∀ n ∈ rest, g.contains n = true := fun n hn => hs n (List.mem_cons_of_mem _ hn)
    by_cases hmem : start ∈ listed
    case pos =>
      have heq : g.walkFrom listed (start :: rest) = g.walkFrom listed rest := by simp [walkFrom, hmem]
      have ⟨hvisits, hall⟩ := ih hrest hc
      rw [heq]
      refine ⟨hvisits, fun n hn => ?_⟩
      cases hn
      case head => simp [mem_listing, hmem]
      case tail hn => exact hall n hn
    case neg =>
      have hneighbors : ∀ m ∈ (g.neighbors start).reverse, g.contains m = true :=
        fun m hm => hg.contains_neighbor (List.mem_reverse.mp hm)
      have hwalk : Walked g (start :: listed) _ _ := walked_walk hg hneighbors
      have heq : g.walkFrom listed (start :: rest) =
          (start, []) :: (g.walk (start :: listed) (g.neighbors start).reverse).1 ++
            g.walkFrom (g.walk (start :: listed) (g.neighbors start).reverse).2 rest := by
        simp [walkFrom, hmem]
      rw [heq]
      generalize g.walk (start :: listed) (g.neighbors start).reverse = r at hwalk
      have ⟨hvisits, hall⟩ := ih hrest (hwalk.closed_component hc)
      have hfirst : g.Visits listed ((start, []) :: r.1) :=
        edgesTo_of_closed hg hc hmem ▸ .cons (hs start List.mem_cons_self) hmem hwalk.visits
      have hlisting : listing listed ((start, []) :: r.1 ++ g.walkFrom r.2 rest) =
          listing r.2 (g.walkFrom r.2 rest) := by
        simp [hwalk.listing, listing]
      rw [hlisting]
      refine ⟨hfirst.append ?_, fun n hn => ?_⟩
      case refine_1 => rwa [listing_cons, ← hwalk.listing]
      cases hn
      case head => simp [mem_listing, hwalk.listing]
      case tail hn => exact hall n hn

namespace Linked

theorem visits_traverse (hg : g.Linked) :
    g.Visits [] g.traverse ∧ ∀ n ∈ g.nodes, n ∈ listing [] g.traverse := by
  have hclosed : ∀ n ∈ ([] : List Nat), g.Closed [] n := by simp
  exact visits_walkFrom hg (fun n hn => (hg.mem_nodes n).mp hn) hclosed

theorem nodup_visitOrder (hg : g.Linked) : g.visitOrder.Nodup := by
  have hnodup := hg.visits_traverse.1.nodup List.nodup_nil
  simpa [visitOrder, QueryGraph.listing] using hnodup

theorem mem_visitOrder (hg : g.Linked) : n ∈ g.visitOrder ↔ g.contains n = true where
  mp := hg.visits_traverse.1.contains
  mpr h := by simpa [visitOrder, mem_listing] using hg.visits_traverse.2 n ((hg.mem_nodes n).mpr h)

end Linked

end Subplans.QueryGraph
