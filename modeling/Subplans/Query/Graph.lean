import Subplans.Predicate.Basic

/-!
Query graphs: occurrences of tables in a query, and joins between them along foreign keys.

Nodes and edges are addressed by the order in which they were added. An address stays valid: a node or
edge that is removed leaves its place empty. Every node has an alias by which SQL text refers to it.

`QueryGraph.WellFormed` says how the parts of a graph fit together.
-/

namespace Subplans

structure Occurrence where
  table : Nat
  cardinality : Float
  clauses : Clauses
  -- The table stands in the graph only to complete a chain of joins.
  isVirtual : Bool
deriving Inhabited

namespace Occurrence

-- The occurrence of a whole table that only completes a chain of joins.
def virtual (s : Schema) (table : Nat) : Occurrence where
  table
  cardinality := (s.table table).cardinality
  clauses := []
  isVirtual := true

def sql (s : Schema) (table : Nat) (clauses : Clauses) (aliasName : String) : String :=
  let condition := clauses.sql aliasName
  "SELECT *\nFROM " ++ (s.table table).name ++ " AS " ++ aliasName ++
    (if condition.isEmpty then "" else "\nWHERE " ++ condition) ++ ";"

end Occurrence

structure Edge where
  source : Nat
  key : Nat
  target : Nat
deriving DecidableEq, Repr

structure NodeSlot where
  aliasName : String
  -- Empty once the node is removed.
  occurrence : Option Occurrence
  outgoing : List Nat
  incoming : List Nat

structure QueryGraph where
  slots : List NodeSlot
  nodes : List Nat
  -- An edge that was removed leaves its place empty.
  edges : List (Option Edge)
  aliasIndex : List (String × Nat)
  -- The number of the last alias that was handed out.
  lastAlias : Nat

namespace QueryGraph

def empty : QueryGraph where
  slots := []
  nodes := []
  edges := []
  aliasIndex := []
  lastAlias := 0

instance : Inhabited QueryGraph := ⟨empty⟩

def slot? (g : QueryGraph) (n : Nat) : Option NodeSlot :=
  g.slots[n]?

def node? (g : QueryGraph) (n : Nat) : Option Occurrence :=
  (g.slot? n).bind NodeSlot.occurrence

def node (g : QueryGraph) (n : Nat) : Occurrence :=
  (g.node? n).getD default

def contains (g : QueryGraph) (n : Nat) : Bool :=
  (g.node? n).isSome

-- The node stands in the graph only to complete a chain of joins.
def isVirtual (g : QueryGraph) (n : Nat) : Bool :=
  (g.node? n).any Occurrence.isVirtual

def edge? (g : QueryGraph) (e : Nat) : Option Edge :=
  (g.edges[e]?).join

def aliasName (g : QueryGraph) (n : Nat) : String :=
  ((g.slot? n).map NodeSlot.aliasName).getD ""

-- The alias of an edge: its number, counted from one.
def edgeAlias (_ : QueryGraph) (e : Nat) : String :=
  "e" ++ toString (e + 1)

def byAlias? (g : QueryGraph) (aliasName : String) : Option Nat :=
  g.aliasIndex.lookup aliasName

def outgoing (g : QueryGraph) (n : Nat) : List Nat :=
  ((g.slot? n).map NodeSlot.outgoing).getD []

def incoming (g : QueryGraph) (n : Nat) : List Nat :=
  ((g.slot? n).map NodeSlot.incoming).getD []

def incident (g : QueryGraph) (n : Nat) : List Nat :=
  g.outgoing n ++ g.incoming n

def neighbors (g : QueryGraph) (n : Nat) : List Nat :=
  (g.outgoing n).filterMap (fun e => (g.edge? e).map Edge.target) ++
    (g.incoming n).filterMap (fun e => (g.edge? e).map Edge.source)

-- The edges that are not removed, in the order in which they were added.
def edgeIds (g : QueryGraph) : List Nat :=
  (List.range g.edges.length).filter fun e => (g.edge? e).isSome

-- The edges that are not removed, by the nodes they come from.
def edgesBySource (g : QueryGraph) : List Nat :=
  g.nodes.flatMap g.outgoing

def realNodes (g : QueryGraph) : List Nat :=
  g.nodes.filter (!g.isVirtual ·)

def realNode? (g : QueryGraph) (aliasName : String) : Option Nat :=
  (g.byAlias? aliasName).filter (!g.isVirtual ·)

def indexAlias (aliasName : String) (n : Nat) (index : List (String × Nat)) : List (String × Nat) :=
  (aliasName, n) :: index.filter (·.1 != aliasName)

def dropAlias (aliasName : String) (n : Nat) (index : List (String × Nat)) : List (String × Nat) :=
  index.filter fun entry => !(entry.1 == aliasName && entry.2 == n)

def add (g : QueryGraph) (o : Occurrence) (aliasName : String) : Nat × QueryGraph :=
  let n := g.slots.length
  (n, { g with
    slots := g.slots ++ [{ aliasName, occurrence := some o, outgoing := [], incoming := [] }]
    nodes := g.nodes ++ [n]
    aliasIndex := indexAlias aliasName n g.aliasIndex })

def numbered (k : Nat) : String :=
  "n" ++ toString k

-- The number of the next alias that no node has. One of the numbers after the last is free, as there are more of them
-- than entries in the index.
def nextAlias (g : QueryGraph) : Nat :=
  ((List.range' (g.lastAlias + 1) (g.aliasIndex.length + 1)).find? fun k =>
    (g.byAlias? (numbered k)).isNone).getD (g.lastAlias + 1)

def addFresh (g : QueryGraph) (o : Occurrence) : Nat × QueryGraph :=
  let k := g.nextAlias
  { g with lastAlias := k }.add o (numbered k)

def addEdge (g : QueryGraph) (source key target : Nat) : Nat × QueryGraph :=
  let e := g.edges.length
  let slots := g.slots.modify source fun s => { s with outgoing := s.outgoing ++ [e] }
  let slots := slots.modify target fun s => { s with incoming := s.incoming ++ [e] }
  (e, { g with slots, edges := g.edges ++ [some ⟨source, key, target⟩] })

def removeEdge (g : QueryGraph) (e : Nat) : QueryGraph :=
  match g.edge? e with
  | none => g
  | some edge =>
    let slots := g.slots.modify edge.source fun s => { s with outgoing := s.outgoing.filter (· != e) }
    let slots := slots.modify edge.target fun s => { s with incoming := s.incoming.filter (· != e) }
    { g with slots, edges := g.edges.set e none }

def removeNode (g : QueryGraph) (n : Nat) : QueryGraph :=
  let g := (g.incident n).foldl removeEdge g
  if g.contains n then
    { g with
      slots := g.slots.modify n fun s => { s with occurrence := none }
      nodes := g.nodes.filter (· != n)
      aliasIndex := dropAlias (g.aliasName n) n g.aliasIndex }
  else g

def replaceNode (g : QueryGraph) (n : Nat) (o : Occurrence) : QueryGraph :=
  { g with slots := g.slots.modify n fun s => { s with occurrence := some o } }

def redirectOutgoing (g : QueryGraph) (old new : Nat) : QueryGraph :=
  let moved := (g.outgoing old).filter fun e => (g.edge? e).isSome
  let slots := g.slots.modify old fun s => { s with outgoing := [] }
  let slots := slots.modify new fun s => { s with outgoing := s.outgoing ++ moved }
  let edges := moved.foldl (fun edges e => edges.modify e (Option.map ({ · with source := new }))) g.edges
  { g with slots, edges }

def redirectIncoming (g : QueryGraph) (old new : Nat) : QueryGraph :=
  let moved := (g.incoming old).filter fun e => (g.edge? e).isSome
  let slots := g.slots.modify old fun s => { s with incoming := [] }
  let slots := slots.modify new fun s => { s with incoming := s.incoming ++ moved }
  let edges := moved.foldl (fun edges e => edges.modify e (Option.map ({ · with target := new }))) g.edges
  { g with slots, edges }

def redirect (g : QueryGraph) (old new : Nat) : QueryGraph :=
  (g.redirectOutgoing old new).redirectIncoming old new

def setAlias (g : QueryGraph) (n : Nat) (aliasName : String) : QueryGraph :=
  { g with
    slots := g.slots.modify n fun s => { s with aliasName }
    aliasIndex := indexAlias aliasName n (dropAlias (g.aliasName n) n g.aliasIndex) }

structure WellFormed (g : QueryGraph) : Prop where
  -- Exactly the nodes that are not removed are listed, each once.
  mem_nodes : ∀ n, n ∈ g.nodes ↔ g.contains n
  nodup_nodes : g.nodes.Nodup
  -- An edge lies between nodes that are not removed, and stands once in the list of either end.
  source_mem : ∀ e edge, g.edge? e = some edge → g.contains edge.source ∧ g.contains edge.target
  count_outgoing : ∀ n e, (g.outgoing n).count e = if (g.edge? e).any (·.source == n) then 1 else 0
  count_incoming : ∀ n e, (g.incoming n).count e = if (g.edge? e).any (·.target == n) then 1 else 0
  byAlias : ∀ a n, g.byAlias? a = some n ↔ g.contains n ∧ g.aliasName n = a
  nodup_aliasIndex : (g.aliasIndex.map Prod.fst).Nodup

end QueryGraph

end Subplans
