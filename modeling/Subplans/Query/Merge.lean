import Subplans.Query.Sql

/-!
Merging of query graphs.

An equality between columns of two graphs becomes joins along the foreign keys that force the columns to be
equal. The tables that these joins pass through become virtual nodes, and virtual nodes that stand for the
same row are made one: two nodes that one node refers to by the same key, or that refer to it by the same
key where it has only one such row to be joined with.
-/

namespace Subplans

-- A join of a node of one graph with a node of another along a connection of their columns.
structure EquivalenceJoin where
  first : Nat
  connection : Connection
  second : Nat
deriving DecidableEq, Repr

inductive JoinResolution
  | join (j : EquivalenceJoin)
  -- The sides do not belong to one graph each.
  | orphaned
  -- The columns are unknown, or no foreign keys force them to be equal.
  | rejected
deriving DecidableEq, Repr

namespace QueryGraph

-- The aliases of the nodes that are not virtual and have a column with this name.
def withColumn (g : QueryGraph) (s : Schema) (column : String) : List String :=
  (g.realNodes.filter fun n => (s.table (g.node n).table).hasColumn column).map g.aliasName

inductive Side
  | first
  | second
deriving DecidableEq, Repr

-- The alias that a bare column name belongs to: the only node that has the column or, if there are several, the only
-- one on the preferred side.
def findAlias? (s : Schema) (first second : QueryGraph) (column : String) (preferred : Option Side) :
    Option String :=
  match first.withColumn s column, second.withColumn s column, preferred with
  | [a], [], _ => some a
  | [], [a], _ => some a
  | [a], _, some .first => some a
  | _, [a], some .second => some a
  | _, _, _ => none

def joinColumns (s : Schema) (first second : QueryGraph) (a : Nat × String) (b : Nat × String) :
    JoinResolution :=
  match s.column? (first.node a.1).table a.2, s.column? (second.node b.1).table b.2 with
  | some c, some d =>
    if c == d || !s.areEquivalent c d then .rejected
    else match s.connection? c d with
      | some connection => .join ⟨a.1, connection, b.1⟩
      | none => .rejected
  | _, _ => .rejected

-- What becomes of an equality of two columns, each with the alias of its node, between two graphs.
def resolve (s : Schema) (first second : QueryGraph) (left right : String × String) : JoinResolution :=
  match first.realNode? left.1, second.realNode? right.1 with
  | some a, some b => joinColumns s first second (a, left.2) (b, right.2)
  | _, _ =>
    match first.realNode? right.1, second.realNode? left.1 with
    | some a, some b => joinColumns s first second (a, right.2) (b, left.2)
    | _, _ => .orphaned

-- The joins that the conditions make, each once, and the conditions that are orphaned. None if one of them cannot be
-- rebuilt.
def placeConditions (place : String → JoinResolution) :
    (joins : List EquivalenceJoin) → (orphaned : List String) → List String →
      Option (List EquivalenceJoin × List String)
  | joins, orphaned, [] => some (joins, orphaned)
  | joins, orphaned, condition :: rest =>
    match place condition with
    | .join j => placeConditions place (if joins.contains j then joins else joins ++ [j]) orphaned rest
    | .orphaned => placeConditions place joins (orphaned ++ [condition]) rest
    | .rejected => none

-- Two nodes of which one takes the place of the other, and the ends of the added edge thereafter.
structure Redundancy where
  keep : Nat
  drop : Nat
  first : Nat
  second : Nat
deriving DecidableEq, Repr

-- What an edge with the key of the added edge from `first` to `second` makes redundant: one of two virtual nodes at the
-- other ends of two such edges.
def redundancy? (g : QueryGraph) (first second : Nat) (e : Edge) : Option Redundancy :=
  if e.source == first && g.isVirtual e.target then some ⟨second, e.target, first, second⟩
  else if e.source == first && g.isVirtual second then some ⟨e.target, second, first, e.target⟩
  else if e.target == second && g.isVirtual e.source then some ⟨first, e.source, first, second⟩
  else if e.target == second && g.isVirtual first then some ⟨e.source, first, e.source, second⟩
  else none

-- The first redundancy that the added edge makes.
def findRedundant (g : QueryGraph) (first added second : Nat) : Option Redundancy :=
  g.edgeIds.findSome? fun id =>
    if id != added && ((g.outgoing first).contains id || (g.incoming second).contains id) then
      match g.edge? id, g.edge? added with
      | some e, some a => if e.key == a.key then g.redundancy? first second e else none
      | _, _ => none
    else none

-- Removes the later of equal edges, and answers the edge that stands for `added` from then on.
def dedupeEdges (g : QueryGraph) (added : Nat) : QueryGraph × Nat :=
  let (g, _, added) := g.edgeIds.foldl (fun (g, seen, added) id =>
    match g.edge? id with
    | none => (g, seen, added)
    | some e =>
      match seen.lookup e with
      | some kept => (g.removeEdge id, seen, if id == added then kept else added)
      | none => (g, (e, id) :: seen, added)) (g, ([] : List (Edge × Nat)), added)
  (g, added)

def collapse (g : QueryGraph) (r : Redundancy) : QueryGraph :=
  -- Where both are one node only the edges to it are redundant.
  if r.keep == r.drop then g else (g.redirect r.drop r.keep).removeNode r.drop

def size (g : QueryGraph) : Nat :=
  g.nodes.length + g.edgeIds.length

-- Makes virtual nodes one as long as the edge `added` from `first` to `second` makes one redundant. Every step leaves
-- fewer nodes and edges. Answers the ends of the edge thereafter.
def mergeVirtual (g : QueryGraph) (first added second : Nat) : QueryGraph × Nat × Nat :=
  match g.findRedundant first added second with
  | none => (g, first, second)
  | some r =>
    let (smaller, added) := (g.collapse r).dedupeEdges added
    if smaller.size < g.size then smaller.mergeVirtual r.first added r.second
    else (smaller, r.first, r.second)
termination_by g.size

-- Adds the nodes and edges of a graph. Aliases that are taken are exchanged for free ones. Answers the places of the
-- nodes.
def copyInto (target source : QueryGraph) : QueryGraph × List (Nat × Nat) :=
  let (target, places) := source.nodes.foldl (fun (target, places) n =>
    let aliasName := source.aliasName n
    let (m, target) := if (target.byAlias? aliasName).isSome then target.addFresh (source.node n)
      else target.add (source.node n) aliasName
    (target, places ++ [(n, m)])) (target, ([] : List (Nat × Nat)))
  let place := fun n => (places.lookup n).getD 0
  let target := source.edgeIds.foldl (fun target id =>
    match source.edge? id with
    | some e => (target.addEdge (place e.source) e.key (place e.target)).2
    | none => target) target
  (target, places)

-- Adds an edge along a key, in its direction if `natural`, and makes virtual nodes one. Answers the node that the walk
-- arrives at.
def addStep (g : QueryGraph) (key : Nat) (natural : Bool) (last next : Nat) : QueryGraph × Nat :=
  let (source, target) := if natural then (last, next) else (next, last)
  let (e, g) := g.addEdge source key target
  let (g, source, target) := g.mergeVirtual source e target
  (g, if natural then target else source)

-- Adds the joins of a connection from `last` to `target`, with a virtual node for each table on the way; `pending` is
-- the key that was walked over last.
def addConnection (s : Schema) (target : Nat) :
    (g : QueryGraph) → (last : Nat) → (pending : Option (Nat × Bool)) → Connection → QueryGraph
  | g, last, some (key, natural), [] => (g.addStep key natural last target).1
  | g, _, none, [] => g
  | g, last, _, .join key natural :: rest => addConnection s target g last (some (key, natural)) rest
  | g, last, some (key, natural), .table t :: rest =>
    let (next, g) := g.addFresh (.virtual s t)
    let (g, last) := g.addStep key natural last next
    addConnection s target g last (some (key, natural)) rest
  | g, last, none, .table _ :: rest => addConnection s target g last none rest

-- Both graphs as one, with the joins between them in order.
def merge (s : Schema) (first second : QueryGraph) (joins : List EquivalenceJoin) : QueryGraph :=
  let (g, firstPlaces) := empty.copyInto first
  let (g, secondPlaces) := g.copyInto second
  joins.foldl (fun g j =>
    addConnection s ((secondPlaces.lookup j.second).getD 0) g ((firstPlaces.lookup j.first).getD 0) none
      j.connection) g

end QueryGraph

end Subplans
