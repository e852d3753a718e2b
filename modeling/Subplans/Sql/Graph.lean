import Subplans.Backend.Basic
import Subplans.Condition.Names
import Subplans.Condition.Resolve
import Subplans.Query.Equalities
import Subplans.Sql.Statement
import Subplans.Text.Lower

/-!
Query graphs of SQL text.

A SELECT over tables whose conditions are combined by AND becomes a graph. A condition on one table becomes
a predicate of its node. Equalities between columns of different tables are collected into classes of equal
columns; a class becomes edges along the foreign keys between its columns, and a virtual node where columns
only share the key that they refer to.
-/

namespace Subplans.Sql

inductive JoinFault
  | kind
  | source
  -- A column does not belong to exactly one foreign key.
  | notSingleKey (column : String)
  | otherTable (column : String)
deriving DecidableEq, Repr

def JoinFault.message : JoinFault → String
  | kind => "only inner and cross joins"
  | source => "only tables"
  | notSingleKey column => column ++ " is not a single foreign key"
  | otherTable column => column ++ " references a different table"

inductive GraphError
  | notSql
  | notSelect
  | unknownTable (name : String)
  | unknownAlias (aliasName : String)
  | unknownColumn (column : String)
  | ambiguousColumn (column : String)
  | duplicateAlias (aliasName : String)
  | unsupportedJoin (fault : JoinFault)
  | backend (error : BackendError)
deriving DecidableEq, Repr

def GraphError.message : GraphError → String
  | notSql => "invalid SQL"
  | notSelect => "not a SELECT statement"
  | unknownTable name => "unknown table: " ++ name
  | unknownAlias aliasName => "unknown alias: " ++ aliasName
  | unknownColumn column => "no table in the query has column " ++ column
  | ambiguousColumn column => "column " ++ column ++ " is ambiguous"
  | duplicateAlias aliasName => "alias " ++ aliasName ++ " is used twice"
  | unsupportedJoin fault => "unsupported join: " ++ fault.message
  | backend error => "backend failure: " ++ error.message

-- A table of the FROM list. Slots name it by its position there.
structure FromTable where
  aliasName : String
  table : Nat
deriving DecidableEq, Repr

def addSource (s : Schema) (tables : List FromTable) : Source → Except GraphError (List FromTable)
  | .joins | .other => .error (.unsupportedJoin .source)
  | .table name aliasName =>
    let own := ((name.getLast?).map fun i => Text.lower i.name).getD ""
    match s.table? own with
    | none => .error (.unknownTable (nameText name))
    | some table =>
      let aliasName := (aliasName.map fun i => Text.lower i.name).getD own
      if tables.any (·.aliasName == aliasName) then .error (.duplicateAlias aliasName)
      else .ok (tables ++ [⟨aliasName, table⟩])

def addJoin (s : Schema) (found : List FromTable × List Expr) (join : JoinKind × Source) :
    Except GraphError (List FromTable × List Expr) := do
  let conditions ← match join.1 with
    | .other => .error (.unsupportedJoin .kind)
    | .cross => .ok found.2
    | .inner condition => .ok (found.2 ++ condition.conjuncts)
  return (← addSource s found.1 join.2, conditions)

def addItem (s : Schema) (found : List FromTable × List Expr) (item : FromItem) :
    Except GraphError (List FromTable × List Expr) := do
  item.joins.foldlM (addJoin s) (← addSource s found.1 item.source, found.2)

def fromList (s : Schema) (items : List FromItem) : Except GraphError (List FromTable × List Expr) := do
  let found ← items.foldlM (addItem s) ([], [])
  if found.1.isEmpty then throw (.unknownTable "")
  return found

-- The table that has a column, by its alias or as the only one with such a column.
def owner (s : Schema) (tables : List FromTable) (aliasName : Option String) (column : String) :
    Except GraphError Nat :=
  match aliasName with
  | some aliasName =>
    match tables.findIdx? (·.aliasName == aliasName) with
    | some i => .ok i
    | none => .error (.unknownAlias aliasName)
  | none =>
    match (List.range tables.length).filter fun i =>
        (tables[i]?).any fun t => (s.table t.table).hasColumn column with
    | [i] => .ok i
    | [] => .error (.unknownColumn column)
    | _ => .error (.ambiguousColumn column)

def slotOf (s : Schema) (tables : List FromTable) (names : List Ident) : Except GraphError Slot := do
  let (aliasName, column) ← match names with
    | [column] => .ok (none, Text.lower column.name)
    | [aliasName, column] => .ok (some (Text.lower aliasName.name), Text.lower column.name)
    | _ => .error (.unknownColumn (nameText names))
  let i ← owner s tables aliasName column
  let t := tables.getD i ⟨"", 0⟩
  match s.column? t.table column with
  | some c => .ok ⟨i, c⟩
  | none => .error (.unknownColumn (t.aliasName ++ "." ++ column))

def columnOf (s : Schema) (tables : List FromTable) : Expr → Except GraphError (Option Slot)
  | .column names => (slotOf s tables names).map some
  | _ => .ok none

def columnEquality (s : Schema) (tables : List FromTable) (e : Expr) : Except GraphError (Option (Slot × Slot)) :=
  match e.bare with
  | .binary left "=" right => do
    match ← columnOf s tables left.bare, ← columnOf s tables right.bare with
    | some a, some b => return some (a, b)
    | _, _ => return none
  | _ => .ok none

-- Takes in an equality of two columns. Classes stand in the order in which their first columns came up.
def equate (classes : List (List Slot)) (left right : Slot) : List (List Slot) :=
  match classes.findIdx? (·.contains left), classes.findIdx? (·.contains right) with
  | some l, some r =>
    if l == r then classes
    else
      let merged := classes.getD (max l r) []
      (classes.eraseIdx (max l r)).modify (min l r) (· ++ merged)
  | some l, none => classes.modify l (· ++ [right])
  | none, some r => classes.modify r (· ++ [left])
  | none, none => classes ++ [[left, right]]

-- The texts of a condition on one table; a range is two conditions.
def conditionTexts : Expr → List String
  | .between false operand low high =>
    [operand.text ++ " >= " ++ low.text, operand.text ++ " <= " ++ high.text]
  | .between true operand low high =>
    [operand.text ++ " < " ++ low.text ++ " OR " ++ operand.text ++ " > " ++ high.text]
  | e => [e.text]

structure Sorted where
  classes : List (List Slot) := []
  texts : List (Nat × String) := []

-- Takes in a condition. Those on no table or on several are left out.
def sortCondition (s : Schema) (tables : List FromTable) (sorted : Sorted) (e : Expr) :
    Except GraphError Sorted := do
  match ← columnEquality s tables e with
  | some (left, right) =>
    -- Two columns of one table make a predicate of it, not a join.
    if left.node != right.node then
      return { sorted with classes := equate sorted.classes left right }
  | none => pure ()
  match ((← e.columns.mapM (slotOf s tables)).map Slot.node).eraseDups with
  | [i] => return { sorted with texts := sorted.texts ++ (conditionTexts e).map (i, ·) }
  | _ => return sorted

-- Joins each column of a class that has a foreign key to another one to it. Answers the columns that are left over.
def joinDirectly (s : Schema) (columns : List Slot) (g : QueryGraph) : List Slot × QueryGraph :=
  columns.foldl (fun (remaining, g) a =>
    match remaining.find? fun b => b != a && (s.keyBetween? a.column b.column).isSome with
    | none => (remaining, g)
    | some b =>
      match s.keyBetween? a.column b.column with
      | none => (remaining, g)
      | some key => (remaining.filter (· != a), (g.addEdge a.node key b.node).2)) (columns, g)

def sharedKeys (s : Schema) (tables : List FromTable) :
    (target : Option Nat) → List Slot → Except GraphError (List (Nat × Nat))
  | _, [] => .ok []
  | target, a :: rest => do
    let name := (tables.getD a.node ⟨"", 0⟩).aliasName ++ "." ++ s.columnName a.column
    match s.keysFromColumn a.column with
    | [key] =>
      let own := (s.key key).target
      if target.any (· != own) then throw (.unsupportedJoin (.otherTable name))
      return (a.node, key) :: (← sharedKeys s tables (some own) rest)
    | _ => throw (.unsupportedJoin (.notSingleKey name))

-- Adds the joins of a class of equal columns. Those that no key connects have to refer to one table, of which a virtual
-- node is added.
def joinClass (s : Schema) (tables : List FromTable) (g : QueryGraph) (columns : List Slot) :
    Except GraphError QueryGraph := do
  let (remaining, g) := joinDirectly s columns g
  if remaining.length < 2 then return g
  match ← sharedKeys s tables none remaining with
  | [] => return g
  | (node, key) :: rest =>
    let (shared, g) := g.addFresh (.virtual s (s.key key).target)
    return ((node, key) :: rest).foldl (fun g (node, key) => (g.addEdge node key shared).2) g

variable {m : Type → Type} [Monad m]

def addTable (s : Schema) (b : Backend m) (texts : List String) (t : FromTable) (g : QueryGraph) :
    ExceptT GraphError m QueryGraph := do
  let qualified := texts.map fun text =>
    String.ofList (Condition.qualify ('(' :: text.toList ++ [')']) t.aliasName (s.table t.table))
  let scope : Scope := { schema := s, table := t.table, aliasName := t.aliasName, bareLists := false }
  let occurrence ← (b.occurrence s t.table (scope.clauses qualified) t.aliasName).adapt .backend
  return (g.add occurrence t.aliasName).2

-- The query graph of a SELECT. The nodes of its tables stand first, in their order.
def Select.graph (s : Schema) (b : Backend m) (select : Select) : ExceptT GraphError m QueryGraph := do
  let (tables, joinConditions) ← fromList s select.items
  let conditions := joinConditions ++ (select.condition.map Expr.conjuncts).getD []
  let sorted ← conditions.foldlM (fun sorted e => (sortCondition s tables sorted e : Except GraphError Sorted)) {}
  let g ← tables.zipIdx.foldlM (fun g (t, i) =>
    addTable s b ((sorted.texts.filter (·.1 == i)).map Prod.snd) t g) QueryGraph.empty
  (sorted.classes.foldlM (joinClass s tables) g : Except GraphError QueryGraph)

def Statement.graph (s : Schema) (b : Backend m) : Statement → ExceptT GraphError m QueryGraph
  | .select selection => selection.graph s b
  | .explanation | .other => throw .notSelect

def graphs (s : Schema) (b : Backend m) (text : String) : ExceptT GraphError m (List QueryGraph) :=
  match Statement.ofText? text with
  | none => throw .notSql
  | some statements => statements.mapM (Statement.graph s b)

end Subplans.Sql
