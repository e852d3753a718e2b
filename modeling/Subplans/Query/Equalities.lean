import Subplans.Query.Traversal

/-!
The equalities between columns that a query graph asks for.

An edge forces each referencing column of its foreign key to equal the referenced one. SQL text mentions
only the nodes that are not virtual, so the equalities that run through virtual nodes have to be stated
between the nodes on either side of them. `QueryGraph.equalities` visits the nodes in the order of the
traversal and collects for each the equalities with nodes visited before: `required` holds the slots that
have to be equal so far, `stated` those that are by the equalities collected so far.
-/

namespace Subplans

structure Slot where
  node : Nat
  column : ColumnRef
deriving DecidableEq, Repr

abbrev SlotClasses := List (List Slot)

namespace SlotClasses

-- The class of a slot; a slot that is in no class stands alone.
def classOf (cs : SlotClasses) (s : Slot) : List Slot :=
  (cs.find? (·.contains s)).getD [s]

def same (cs : SlotClasses) (a b : Slot) : Bool :=
  (cs.classOf a).contains b

-- The classes with those of two slots as one, the class of the first slot in front.
def union (cs : SlotClasses) (a b : Slot) : SlotClasses :=
  if cs.same a b then cs
  else (cs.classOf a ++ cs.classOf b) :: cs.filter fun c => !c.contains a && !c.contains b

end SlotClasses

structure Equalities where
  -- The nodes visited so far that are not virtual, each with its equalities.
  conditions : List (Nat × List (Slot × Slot))
  -- Slots that have to be equal.
  required : SlotClasses
  -- Slots that the collected equalities make equal.
  stated : SlotClasses
  -- For a slot, one that it is compared with.
  source : List (Slot × Slot)

namespace Equalities

def none : Equalities := ⟨[], [], [], []⟩

def state (q : Equalities) (node : Nat) (left right : Slot) : Equalities :=
  { q with conditions := q.conditions.map fun (n, eqs) =>
      if n == node then (n, eqs ++ [(left, right)]) else (n, eqs) }

-- The slot at the end of the chain of sources from a slot, as far as the chain stays among slots that are stated to be
-- equal. It is followed for at most `steps` steps.
def follow (q : Equalities) : (steps : Nat) → Slot → Slot
  | 0, s => s
  | steps + 1, s =>
    match q.source.lookup s with
    | some next => if q.stated.same next s then q.follow steps next else s
    | Option.none => s

def root (q : Equalities) (s : Slot) : Slot :=
  q.follow (q.source.length + 1) s

-- Takes in one pair of columns of an edge. Answers also the slots that may have to be compared with others, when the
-- edge has a virtual end.
def addPair (g : QueryGraph) (node : Nat) (edge : Edge) (acc : Equalities × List Slot)
    (pair : ColumnRef × ColumnRef) : Equalities × List Slot :=
  let (q, updated) := acc
  let left : Slot := ⟨edge.source, pair.1⟩
  let right : Slot := ⟨edge.target, pair.2⟩
  if q.required.same left right then (q, updated)
  else
    let q := { q with required := q.required.union left right }
    let real := !g.isVirtual edge.source && !g.isVirtual edge.target
    let q := if real then { q with stated := q.stated.union left right }.state node left right else q
    -- With a virtual end nothing can be stated yet: `repair` looks for nodes on either side.
    let updated := if real then updated
      else [left, right].foldl (fun u s => if u.contains s then u else u ++ [s]) updated
    let q := if g.isVirtual edge.target then q else { q with source := Assoc.put left right q.source }
    (q, updated)

def addEdge (g : QueryGraph) (s : Schema) (node : Nat) (acc : Equalities × List Slot) (e : Nat) :
    Equalities × List Slot :=
  match g.edge? e with
  | some edge => (s.key edge.key).pairs.foldl (addPair g node edge) acc
  | Option.none => acc

-- Compares a slot with one it has to be equal to, unless that is stated already. `up` is the slot that stands for those
-- compared before, and `order` the order of the nodes.
def compareWith (g : QueryGraph) (order : List Nat) (acc : Equalities × Slot) (candidate : Slot) :
    Equalities × Slot :=
  let (q, up) := acc
  if candidate.node == up.node || g.isVirtual candidate.node || q.stated.same up candidate then (q, up)
  else
    let other := q.root candidate
    let up := q.root up
    let q := { q with stated := q.stated.union up other }
    let (left, right) := if order.idxOf up.node < order.idxOf other.node then (other, up) else (up, other)
    let q := if (q.source.lookup left).isNone && (q.source.lookup right).isNone then
      { q with source := Assoc.put left right q.source } else q
    (q.state left.node left right, up)

def repair (g : QueryGraph) (order : List Nat) (q : Equalities) (start : Slot) : Equalities :=
  if g.isVirtual start.node then q
  else ((q.required.classOf start).foldl (compareWith g order) (q, start)).1

def visit (g : QueryGraph) (s : Schema) (order : List Nat) (q : Equalities) (v : Nat × List Nat) :
    Equalities :=
  let (node, edges) := v
  let q := if g.isVirtual node then q else { q with conditions := q.conditions ++ [(node, [])] }
  let (q, updated) := edges.foldl (addEdge g s node) (q, [])
  updated.foldl (repair g order) q

end Equalities

namespace QueryGraph

-- The nodes that are not virtual in the order of the traversal, each with the equalities that link it to nodes before
-- it.
def equalities (g : QueryGraph) (s : Schema) : List (Nat × List (Slot × Slot)) :=
  let visits := g.traverse
  (visits.foldl (Equalities.visit g s (visits.map Prod.fst)) .none).conditions

end QueryGraph

end Subplans
