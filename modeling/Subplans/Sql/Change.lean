import Subplans.Sql.Select

/-!
Statements of SQL text that change rows.

INSERT and UPDATE may stand where a query stands and are written out; the others are only recognized.
-/

namespace Subplans.Sql

open Reader Level

variable (below : Level)

-- The column that a value is assigned to. Only words that are no keywords belong to its name; other tokens between them
-- are passed over.
def assignedColumn : Reader (List Ident) := do
  let names ← many do
    match ← peek with
    | none | some (.symbol "=") => pure none
    | some (.word name capitals) =>
      if knownKeywords.contains capitals then pure none
      else
        let _ ← next
        pure (some [name])
    | some _ =>
      let _ ← next
      pure (some [])
  pure names.flatten

def assignment : Reader Phrase := do
  let column ← assignedColumn
  expect "="
  pure (nameText column ++ " = " ++ (← below.phrase))

def assignments : Reader Phrase := do
  pure (Phrase.list (← commaSeparated (assignment below)))

def filter : Reader Phrase :=
  clause ["WHERE"] below.phrase

def returning : Reader Phrase :=
  clause ["RETURNING"] (selectItems below)

def partitionValues : Reader Phrase := do
  pure ("(" ++ (← parenthesized below.phrases) ++ ")")

def update : Reader Phrase := do
  let target ← fromItem below
  expectKeywords ["SET"]
  let values ← assignments below
  let sources ← clause ["FROM"] (Meaning.phrase <$> fromItem below)
  let condition ← filter below
  pure ("UPDATE " ++ target.phrase ++ " SET " ++ values ++ sources ++ condition ++ (← returning below))

-- What happens to a row that is there already, if it is told. Two blanks stand before a CONFLICT clause.
def conflict : Reader Phrase := do
  if !(← keyword "ON") then return {}
  if ← keyword "CONFLICT" then
    let target ← if ← keywords ["ON", "CONSTRAINT"] then
        pure (" ON CONSTRAINT " ++ nameText (← qualifiedName))
      else if ← isSymbolAhead "(" then pure ("(" ++ namesText (← columnNames) ++ ")")
      else pure ""
    expectKeywords ["DO"]
    if ← keyword "NOTHING" then pure ("  ON CONFLICT" ++ target ++ " DO NOTHING" : String)
    else
      expectKeywords ["UPDATE", "SET"]
      let values ← assignments below
      pure ("  ON CONFLICT" ++ target ++ " DO UPDATE SET " ++ values ++ (← filter below))
  else
    expectKeywords ["DUPLICATE", "KEY", "UPDATE"]
    pure (" ON DUPLICATE KEY UPDATE " ++ (← assignments below))

def fileFormat : Reader String :=
  expectKeywordOf ["AVRO", "JSONFILE", "ORC", "PARQUET", "RCFILE", "SEQUENCEFILE", "TEXTFILE"]

def insertIntoDirectory : Reader Phrase := do
  let path ← literalText
  let format ← announced ["STORED", "AS"] fileFormat
  pure (" DIRECTORY '" ++ path ++ "'" ++ (format.map (" STORED AS " ++ ·)).getD "" ++ " " ++ (← below.queryPhrase))

-- The rest of an INSERT into a table. The columns may stand before and after the partitions. In the order of the parts
-- the rows come before the partitions.
def insertIntoTable : Reader Phrase := do
  let word := if ← keyword "TABLE" then " TABLE" else ""
  let name ← qualifiedName
  let columns ← optionalColumnNames
  let partitions ← clause ["PARTITION"] (partitionValues below)
  let laterColumns ← optionalColumnNames
  let rows ← below.queryPhrase
  let onConflict ← conflict below
  let answer ← returning below
  pure {
    text := word ++ " " ++ nameText name ++ columnsText columns ++ partitions.text ++ columnsText laterColumns ++ " " ++
      rows.text ++ onConflict.text ++ answer.text
    parts := rows.parts ++ partitions.parts ++ onConflict.parts ++ answer.parts
  }

def insert : Reader Phrase := do
  let action ← keywordOf ["INTO", "OVERWRITE"]
  let isLocal ← keyword "LOCAL"
  let overwrite := if action == some "OVERWRITE" then " OVERWRITE" else ""
  if ← keyword "DIRECTORY" then
    pure ("INSERT" ++ overwrite ++ (if isLocal then " LOCAL" else "") ++ (← insertIntoDirectory below))
  else
    let into := if action == some "INTO" then " INTO" else ""
    pure ("INSERT" ++ overwrite ++ into ++ (← insertIntoTable below))

def delete : Reader Unit := do
  if !(← keyword "FROM") then
    discard (commaSeparated qualifiedName)
    expectKeywords ["FROM"]
  discard (fromItems below)
  discard (announced ["USING"] (fromItems below))
  discard (filter below)
  discard (returning below)

-- What a MERGE does with rows that match, or with those that do not.
def mergeAction (isNew : Bool) : Reader Unit := do
  if isNew then
    expectKeywords ["INSERT"]
    discard optionalColumnNames
    expectKeywords ["VALUES"]
    discard (givenRows below)
  else
    match ← expectKeywordOf ["UPDATE", "DELETE"] with
    | "UPDATE" =>
      expectKeywords ["SET"]
      discard (assignments below)
    | _ => pure ()

-- A clause of a MERGE, if the statement does not end.
def mergeClause : Reader (Option Unit) := do
  match ← peek with
  | none | some (.symbol ";") => pure none
  | some _ =>
    expectKeywords ["WHEN"]
    let isNew ← keyword "NOT"
    expectKeywords ["MATCHED"]
    discard (announced ["AND"] below.expression)
    expectKeywords ["THEN"]
    some <$> mergeAction below isNew

def merge : Reader Unit := do
  discard (keyword "INTO")
  discard (table below)
  expectKeywords ["USING"]
  discard (table below)
  expectKeywords ["ON"]
  discard below.expression
  discard (many (mergeClause below))

def truncate : Reader Unit := do
  discard (keyword "TABLE")
  discard qualifiedName
  discard (announced ["PARTITION"] (partitionValues below))

end Subplans.Sql
