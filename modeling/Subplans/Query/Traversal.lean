import Subplans.Query.Graph

/-!
Depth-first traversal of query graphs.

`traverse` lists every node with the edges that link it to nodes listed before. A component starts with
its first node in the order of nodes, which has no such edges; from there the walk goes on at the latest
node that still has a neighbour that is not listed.
-/

namespace Subplans.QueryGraph

def unlisted (g : QueryGraph) (listed : List Nat) : Nat :=
  ((List.range g.slots.length).filter (!listed.contains ·)).length

theorem unlisted_cons_lt {g : QueryGraph} {n : Nat} {listed : List Nat} (hn : n < g.slots.length)
    (h : n ∉ listed) : g.unlisted (n :: listed) < g.unlisted listed := by
  have hsplit : (List.range g.slots.length).filter (!(n :: listed).contains ·) =
      ((List.range g.slots.length).filter (!listed.contains ·)).filter (· != n) := by
    rw [List.filter_filter]
    congr 1
    funext m
    by_cases hm : m = n <;> simp [hm]
  unfold unlisted
  rw [hsplit]
  have hmem : n ∈ (List.range g.slots.length).filter (!listed.contains ·) := by
    simp [hn, h]
  exact List.length_filter_lt_length_iff_exists.2 ⟨n, hmem, by simp⟩

def edgesTo (g : QueryGraph) (listed : List Nat) (n : Nat) : List Nat :=
  (g.incident n).filter fun e =>
    (g.edge? e).any fun edge => listed.contains edge.source || listed.contains edge.target

-- Lists the nodes that can be reached from a stack of nodes and are not listed yet, with their edges to nodes listed
-- before. Answers also all nodes listed in the end, the latest first.
def walk (g : QueryGraph) (listed stack : List Nat) : List (Nat × List Nat) × List Nat :=
  match stack with
  | [] => ([], listed)
  | next :: rest =>
    if h : next < g.slots.length ∧ next ∉ listed then
      have := unlisted_cons_lt h.1 h.2
      let (visits, listed') := walk g (next :: listed) ((g.neighbors next).reverse ++ rest)
      ((next, g.edgesTo listed next) :: visits, listed')
    else walk g listed rest
termination_by (g.unlisted listed, stack.length)

-- The visits of the components that the nodes `starts` lie in, so far as they are not listed yet.
def walkFrom (g : QueryGraph) (listed : List Nat) : (starts : List Nat) → List (Nat × List Nat)
  | [] => []
  | start :: rest =>
    if listed.contains start then walkFrom g listed rest
    else
      let (visits, listed) := walk g (start :: listed) (g.neighbors start).reverse
      (start, []) :: visits ++ walkFrom g listed rest

def traverse (g : QueryGraph) : List (Nat × List Nat) :=
  g.walkFrom [] g.nodes

def visitOrder (g : QueryGraph) : List Nat :=
  g.traverse.map Prod.fst

end Subplans.QueryGraph
