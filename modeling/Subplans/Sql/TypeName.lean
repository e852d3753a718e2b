import Subplans.Sql.Expr
import Subplans.Sql.Reader

/-!
The names of types in SQL text.

Known types are written in upper case with what stands in parentheses after them; any other name may be that
of a type, too.
-/

namespace Subplans.Sql

inductive TypeForm
  | known
  | interval
  | custom
deriving DecidableEq, Repr

structure TypeName where
  text : String
  form : TypeForm := .known

namespace TypeName

open Reader

def plain : List String :=
  ["BOOLEAN", "REAL", "UUID", "DATE", "JSON", "REGCLASS", "STRING", "TEXT", "BYTEA"]

def sized : List String :=
  ["FLOAT", "NVARCHAR", "CLOB", "BINARY", "VARBINARY", "BLOB", "DATETIME", "TIMESTAMPTZ", "TIMETZ"]

def integers : List String :=
  ["TINYINT", "SMALLINT", "MEDIUMINT", "INTEGER", "INT", "BIGINT"]

def decimals : List String :=
  ["NUMERIC", "DECIMAL", "DEC", "BIGNUMERIC", "BIGDECIMAL"]

def enumerations : List String :=
  ["ENUM", "SET"]

def argument (inside : Reader String) : Reader String := do
  pure (((← optionalParenthesized inside).map fun text => "(" ++ text ++ ")").getD "")

def size : Reader String :=
  argument do pure (toString (← wholeNumber))

def textLength : Reader String :=
  argument do
    let n ← wholeNumber
    pure (toString n ++ ((← keywordOf ["CHARACTERS", "OCTETS"]).map (" " ++ ·)).getD "")

def precision : Reader String :=
  argument do
    let n ← wholeNumber
    if ← symbol "," then pure (toString n ++ "," ++ toString (← wholeNumber)) else pure (toString n)

def timeZone : Reader String := do
  if ← keyword "WITH" then
    expectKeywords ["TIME", "ZONE"]
    pure " WITH TIME ZONE"
  else if ← keyword "WITHOUT" then
    expectKeywords ["TIME", "ZONE"]
    pure " WITHOUT TIME ZONE"
  else pure ""

-- What stands in parentheses after the name of a type that is not known. Commas may be left out.
def modifiers : Reader String := do
  let parts := many do
    if ← isSymbolAhead ")" then return none
    match ← next with
    | .word name _ => pure (some [name.bareText])
    | .number digits _ => pure (some [digits])
    | .literal (.plain content) => pure (some [content])
    | .symbol "," => pure (some [])
    | _ => failure
  match (← optionalParenthesized parts).map List.flatten with
  | none | some [] => pure ""
  | some words => pure ("(" ++ ", ".intercalate words ++ ")")

-- The name of a type that is no known one.
def custom : Reader TypeName := do
  let first ← peek
  require (first matches some (.word ..))
  let names ← qualifiedName
  pure ⟨nameText names ++ (← modifiers), .custom⟩

def scalar : Reader TypeName := do
  if let some name ← keywordOf plain then pure ⟨name, .known⟩
  else if let some name ← keywordOf sized then pure ⟨name ++ (← size), .known⟩
  else if let some name ← keywordOf integers then
    let size ← size
    pure ⟨name ++ size ++ (if ← keyword "UNSIGNED" then " UNSIGNED" else ""), .known⟩
  else if let some name ← keywordOf decimals then pure ⟨name ++ (← precision), .known⟩
  else if ← keyword "VARCHAR" then pure ⟨"VARCHAR" ++ (← textLength), .known⟩
  else if ← keyword "DOUBLE" then
    pure ⟨if ← keyword "PRECISION" then "DOUBLE PRECISION" else "DOUBLE", .known⟩
  else if let some name ← keywordOf ["CHARACTER", "CHAR"] then
    if ← keyword "VARYING" then pure ⟨name ++ " VARYING" ++ (← textLength), .known⟩
    else if ← keywords ["LARGE", "OBJECT"] then pure ⟨name ++ " LARGE OBJECT" ++ (← size), .known⟩
    else pure ⟨name ++ (← textLength), .known⟩
  else if let some name ← keywordOf ["TIMESTAMP", "TIME"] then
    let size ← size
    pure ⟨name ++ size ++ (← timeZone), .known⟩
  else if let some name ← keywordOf enumerations then
    let texts ← parenthesized (commaSeparated plainText)
    pure ⟨name ++ "(" ++ ", ".intercalate (texts.map quotedText) ++ ")", .known⟩
  else if ← keyword "INTERVAL" then pure ⟨"INTERVAL", .interval⟩
  else custom

def array (item : Reader TypeName) : Reader TypeName := do
  expect "<"
  let item ← item
  expect ">"
  pure ⟨item.text ++ "[]", .known⟩

-- The name of a type; each pair of brackets after it makes it one of arrays. `room` bounds how many types may stand
-- inside each other.
def within : (room : Nat) → Reader TypeName
  | 0 => failure
  | room + 1 => do
    let type ← if ← keyword "ARRAY" then array (within room) else scalar
    let brackets ← many do
      if ← symbol "[" then
        expect "]"
        pure (some "[]")
      else pure none
    if brackets.isEmpty then pure type else pure ⟨type.text ++ String.join brackets, .known⟩

def reader : Reader TypeName := fun tokens =>
  within tokens.length tokens

end TypeName

end Subplans.Sql
