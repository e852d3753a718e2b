import Subplans.Json.Record
import Subplans.Schema.Links

/-!
Descriptions of schemas as JSON records, and the schemas they describe.

`Schema.ofDescription` resolves the names in a description. It takes the tables in order and then the
foreign keys in order and stops at the first fault.
-/

namespace Subplans

structure ColumnDescription where
  name : String
  dataType : String
  indexed : Bool := false
  nullable : Bool := true
  nullRatio : Float := 0
  least : Option String := none
  greatest : Option String := none

structure TableDescription where
  name : String
  cardinality : Float
  isLeaf : Bool := false
  columns : List ColumnDescription
  keyColumns : List String := []
  indexes : List String := []

structure KeyDescription where
  name : String
  source : String
  sourceColumns : List String
  target : String
  targetColumns : List String

structure SchemaDescription where
  name : String
  tables : List TableDescription
  keys : List KeyDescription := []

inductive SchemaError
  | unreadable
  | malformed
  | unknownDataType (table column dataType : String)
  | duplicateTable (table : String)
  | noTable (table : String)
  | noColumn (table column : String)
  | malformedKey (key : String)
deriving DecidableEq, Repr

def SchemaError.message : SchemaError → String
  | unreadable => "I/O error"
  | malformed => "invalid schema description"
  | unknownDataType table column dataType =>
    "unknown data type " ++ dataType ++ " for column " ++ table ++ "." ++ column
  | duplicateTable table => "table " ++ table ++ " is defined more than once"
  | noTable table => "unknown table " ++ table
  | noColumn table column => "unknown column " ++ table ++ "." ++ column
  | malformedKey key => "foreign key " ++ key ++ " has mismatched column lists"

namespace ColumnDescription

def ofJson? (value : Json) : Option ColumnDescription := do
  let r ← value.record? ["name", "data_type", "indexed", "nullable", "null_ratio", "min", "max"]
  let name ← r.required? "name" Json.string?
  let dataType ← r.required? "data_type" Json.string?
  let indexed ← r.defaulting? "indexed" false Json.bool?
  let nullable ← r.defaulting? "nullable" true Json.bool?
  let nullRatio ← r.defaulting? "null_ratio" 0 Json.float?
  let least ← r.defaulting? "min" none (Json.nullable? Json.string?)
  let greatest ← r.defaulting? "max" none (Json.nullable? Json.string?)
  pure { name, dataType, indexed, nullable, nullRatio, least, greatest }

end ColumnDescription

namespace TableDescription

def ofJson? (value : Json) : Option TableDescription := do
  let r ← value.record? ["name", "cardinality", "is_leaf", "columns", "key_columns", "indexes"]
  let name ← r.required? "name" Json.string?
  let cardinality ← r.required? "cardinality" Json.float?
  let isLeaf ← r.defaulting? "is_leaf" false Json.bool?
  let columns ← r.required? "columns" (Json.list? ColumnDescription.ofJson?)
  let keyColumns ← r.defaulting? "key_columns" [] (Json.list? Json.string?)
  let indexes ← r.defaulting? "indexes" [] (Json.list? Json.string?)
  pure { name, cardinality, isLeaf, columns, keyColumns, indexes }

end TableDescription

namespace KeyDescription

def ofJson? (value : Json) : Option KeyDescription := do
  let r ← value.record? ["name", "from_table", "from_columns", "to_table", "to_columns"]
  let name ← r.required? "name" Json.string?
  let source ← r.required? "from_table" Json.string?
  let sourceColumns ← r.required? "from_columns" (Json.list? Json.string?)
  let target ← r.required? "to_table" Json.string?
  let targetColumns ← r.required? "to_columns" (Json.list? Json.string?)
  pure { name, source, sourceColumns, target, targetColumns }

end KeyDescription

namespace SchemaDescription

def ofJson? (value : Json) : Option SchemaDescription := do
  let r ← value.record? ["name", "tables", "foreign_keys"]
  let name ← r.required? "name" Json.string?
  let tables ← r.required? "tables" (Json.list? TableDescription.ofJson?)
  let keys ← r.defaulting? "foreign_keys" [] (Json.list? KeyDescription.ofJson?)
  pure { name, tables, keys }

end SchemaDescription

namespace Schema

-- The column that a description in the table `table` describes.
def buildColumn (table : String) (d : ColumnDescription) : Except SchemaError Column := do
  let some dataType := DataType.ofSqlName? d.dataType
    | throw (.unknownDataType table d.name d.dataType)
  let bound := fun (text : Option String) =>
    if dataType.isText then none else text.bind fun t => dataType.value? t.toList
  pure {
    name := d.name
    dataType
    indexed := d.indexed
    nullable := d.nullable
    nullRatio := d.nullRatio
    least := bound d.least
    greatest := bound d.greatest
  }

def buildTable (d : TableDescription) : Except SchemaError Table := do
  let columns ← d.columns.mapM (buildColumn d.name)
  let keys ← d.keyColumns.mapM fun key =>
    match columns.findIdx? (·.name == key) with
    | some i => pure i
    | none => throw (.noColumn d.name key)
  pure { name := d.name, cardinality := d.cardinality, isLeaf := d.isLeaf, columns, keys, indexes := d.indexes }

def addTable (tables : List Table) (d : TableDescription) : Except SchemaError (List Table) := do
  if tables.any (·.name == d.name) then throw (.duplicateTable d.name)
  pure (tables ++ [← buildTable d])

def findColumn (tables : List Table) (table column : String) : Except SchemaError ColumnRef :=
  match tables.findIdx? (·.name == table) with
  | none => throw (.noTable table)
  | some t =>
    match (tables.getD t default).column? column with
    | none => throw (.noColumn table column)
    | some c => pure ⟨t, c⟩

def buildKey (tables : List Table) (d : KeyDescription) : Except SchemaError ForeignKey := do
  if d.sourceColumns.length ≠ d.targetColumns.length then throw (.malformedKey d.name)
  let pairs ← (d.sourceColumns.zip d.targetColumns).mapM fun (a, b) => do
    pure (← findColumn tables d.source a, ← findColumn tables d.target b)
  match pairs with
  | [] => throw (.malformedKey d.name)
  | (a, b) :: _ => pure { name := d.name, source := a.table, target := b.table, pairs }

def ofDescription (d : SchemaDescription) : Except SchemaError Schema := do
  let tables ← d.tables.foldlM addTable []
  let keys ← d.keys.mapM (buildKey tables)
  pure (ofTables d.name tables keys)

def ofJson (value : Json) : Except SchemaError Schema :=
  match SchemaDescription.ofJson? value with
  | none => throw .malformed
  | some d => ofDescription d

def ofText (text : String) : Except SchemaError Schema :=
  match Json.read? text with
  | none => throw .malformed
  | some value => ofJson value

end Schema

end Subplans
