import Subplans.DataType

/-!
The tables of a database, their columns, and the foreign keys between them.

Tables, columns and foreign keys are addressed by their positions. A foreign key pairs each of its
referencing columns with the column it refers to.
-/

namespace Subplans

structure ColumnRef where
  table : Nat
  column : Nat
deriving DecidableEq, Repr, Inhabited

namespace ColumnRef

-- The order of columns: by table, then by position.
def before (a b : ColumnRef) : Bool :=
  a.table < b.table || (a.table == b.table && a.column < b.column)

end ColumnRef

structure Column where
  name : String
  dataType : DataType
  indexed : Bool
  nullable : Bool
  nullRatio : Float
  -- Observed bounds; columns of texts have none.
  least : Option Value
  greatest : Option Value

structure Table where
  name : String
  cardinality : Float
  isLeaf : Bool
  columns : List Column
  keys : List Nat
  indexes : List String
deriving Inhabited

namespace Table

def column? (t : Table) (name : String) : Option Nat :=
  t.columns.findIdx? (·.name == name)

def hasColumn (t : Table) (name : String) : Bool :=
  t.columns.any (·.name == name)

end Table

structure ForeignKey where
  name : String
  source : Nat
  target : Nat
  pairs : List (ColumnRef × ColumnRef)
deriving Inhabited

-- A step of a walk along foreign keys: over a key, from the referencing to the referenced table if `natural` and the
-- other way if not, or a stop at a table between two keys.
inductive Step
  | table (table : Nat)
  | join (key : Nat) (natural : Bool)
deriving DecidableEq, Repr

abbrev Connection := List Step

namespace Step

def flip : Step → Step
  | table t => table t
  | join key natural => join key (!natural)

theorem flip_flip (s : Step) : s.flip.flip = s := by
  cases s <;> simp [flip]

end Step

namespace Connection

def reversed (c : Connection) : Connection :=
  c.reverse.map Step.flip

theorem reversed_reversed (c : Connection) : (reversed (reversed c)) = c := by
  simp [reversed, Step.flip_flip, Function.comp_def]

end Connection

end Subplans
