import Subplans.Assoc
import Subplans.Schema.Basic

/-!
Which columns are forced to be equal by foreign keys, and by which of them.

When all foreign keys are joined, the two columns of each of their pairs are equal. `Links` stores the
classes of columns that are equal for this reason and, for any two columns of a class, a walk along the
keys from one to the other. Keys are taken in one by one: the classes of the two columns of a pair
become one class, and every column of the one gets a walk over the new key to every column of the
other, unless it has one already that is not longer.
-/

namespace Subplans

-- Classes of columns that foreign keys force to be equal, and walks between their members.
structure Links where
  -- The class of each column, in the order of columns.
  classes : List (ColumnRef × List ColumnRef)
  -- Walks by their first and last column.
  connections : List ((ColumnRef × ColumnRef) × Connection)

namespace Links

def ofColumns (columns : List ColumnRef) : Links where
  classes := columns.map fun c => (c, [c])
  connections := []

def classOf (l : Links) (c : ColumnRef) : List ColumnRef :=
  (l.classes.lookup c).getD []

def connection? (l : Links) (a b : ColumnRef) : Option Connection :=
  l.connections.lookup (a, b)

-- Takes in a walk unless there is one that is not longer.
def connect (l : Links) (a b : ColumnRef) (walk : Connection) : Links :=
  match l.connection? a b with
  | some old => if walk.length < old.length then { l with connections := Assoc.put (a, b) walk l.connections } else l
  | none => { l with connections := Assoc.put (a, b) walk l.connections }

def merge : List ColumnRef → List ColumnRef → List ColumnRef
  | [], bs => bs
  | as, [] => as
  | a :: as, b :: bs =>
    if a == b then a :: merge as bs
    else if a.before b then a :: merge as (b :: bs)
    else b :: merge (a :: as) bs
termination_by as bs => as.length + bs.length

-- The walk from `a` to `b` over a pair of a key, where `a` is linked to the referencing column of the pair and `b` to
-- the referenced one.
def walkOver (l : Links) (index : Nat) (key : ForeignKey) (pair : ColumnRef × ColumnRef)
    (a b : ColumnRef) : Connection :=
  let start := if a == pair.1 then [] else (l.connection? a pair.1).getD [] ++ [.table key.source]
  let finish := if b == pair.2 then [] else .table key.target :: (l.connection? pair.2 b).getD []
  start ++ .join index true :: finish

-- Connects `a` and `b` over a pair of a key in both directions.
def connectOver (index : Nat) (key : ForeignKey) (pair : ColumnRef × ColumnRef) (l : Links)
    (ends : ColumnRef × ColumnRef) : Links :=
  let (a, b) := ends
  if a == b then l
  else
    let walk := l.walkOver index key pair a b
    (l.connect a b walk).connect b a walk.reversed

def addPair (index : Nat) (key : ForeignKey) (l : Links) (pair : ColumnRef × ColumnRef) : Links :=
  let sources := l.classOf pair.1
  let targets := l.classOf pair.2
  -- Walks go over those known so far, hence they come before the classes become one.
  let l := (sources.flatMap fun a => targets.map (a, ·)).foldl (connectOver index key pair) l
  let merged := merge sources targets
  { l with classes := merged.foldl (fun classes c => Assoc.put c merged classes) l.classes }

def addKey (l : Links) (entry : ForeignKey × Nat) : Links :=
  entry.1.pairs.foldl (addPair entry.2 entry.1) l

def ofKeys (columns : List ColumnRef) (keys : List ForeignKey) : Links :=
  keys.zipIdx.foldl addKey (ofColumns columns)

end Links

structure Schema where
  name : String
  tables : List Table
  keys : List ForeignKey
  links : Links

namespace Schema

def columnsOf (tables : List Table) : List ColumnRef :=
  tables.zipIdx.flatMap fun (t, i) => (List.range t.columns.length).map (⟨i, ·⟩)

def ofTables (name : String) (tables : List Table) (keys : List ForeignKey) : Schema where
  name
  tables
  keys
  links := Links.ofKeys (columnsOf tables) keys

def table (s : Schema) (t : Nat) : Table :=
  s.tables.getD t default

def table? (s : Schema) (name : String) : Option Nat :=
  s.tables.findIdx? (·.name == name)

def column (s : Schema) (c : ColumnRef) : Option Column :=
  (s.table c.table).columns[c.column]?

def columnName (s : Schema) (c : ColumnRef) : String :=
  ((s.column c).map Column.name).getD ""

def dataType (s : Schema) (c : ColumnRef) : DataType :=
  ((s.column c).map Column.dataType).getD .integer

def qualifiedName (s : Schema) (c : ColumnRef) : String :=
  (s.table c.table).name ++ "." ++ s.columnName c

def column? (s : Schema) (t : Nat) (name : String) : Option ColumnRef :=
  ((s.table t).column? name).map (⟨t, ·⟩)

def key (s : Schema) (k : Nat) : ForeignKey :=
  s.keys.getD k default

def key? (s : Schema) (name : String) : Option Nat :=
  s.keys.findIdx? (·.name == name)

def keysFrom (s : Schema) (t : Nat) : List Nat :=
  (List.range s.keys.length).filter fun k => (s.key k).source == t

def keyBetween? (s : Schema) (a b : ColumnRef) : Option Nat :=
  (s.keysFrom a.table).find? fun k => (s.key k).target == b.table && (s.key k).pairs == [(a, b)]

def keysFromColumn (s : Schema) (c : ColumnRef) : List Nat :=
  (s.keysFrom c.table).filter fun k => (s.key k).pairs.any (·.1 == c)

-- The table that an index belongs to; of several the last one that names it.
def tableOfIndex? (s : Schema) (index : String) : Option Nat :=
  ((List.range s.tables.length).filter fun t => (s.table t).indexes.contains index).getLast?

def equivalents (s : Schema) (c : ColumnRef) : List ColumnRef :=
  s.links.classOf c

def areEquivalent (s : Schema) (a b : ColumnRef) : Bool :=
  (s.equivalents a).contains b

-- The walk along foreign keys between two different columns that are equal by them.
def connection? (s : Schema) (a b : ColumnRef) : Option Connection :=
  s.links.connection? a b

end Schema

end Subplans
