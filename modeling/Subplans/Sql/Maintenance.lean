import Subplans.Sql.Column

/-!
Statements of SQL text that look after tables.

Statistics, caches, comments and copies of tables from and to files. They are only recognized. Each reader stands
for what follows the first word of the statement.
-/

namespace Subplans.Sql.Maintenance

open Reader Level

variable (below : Level)

def statisticsClause : Reader (Option Unit) := do
  match ← keywordOf ["PARTITION", "FOR", "CACHE", "NOSCAN", "COMPUTE"] with
  | some "PARTITION" => some <$> discard (partitionValues below)
  | some "FOR" =>
    expectKeywords ["COLUMNS"]
    some <$> discard (attempt (commaSeparated ident))
  | some "CACHE" => some <$> expectKeywords ["METADATA"]
  | some "COMPUTE" => some <$> expectKeywords ["STATISTICS"]
  | some _ => pure (some ())
  | none => pure none

def analyze : Reader Unit := do
  expectKeywords ["TABLE"]
  discard qualifiedName
  discard (many (statisticsClause below))

def comment : Reader Unit := do
  Definition.ifExists
  expectKeywords ["ON"]
  discard (expectKeywordOf ["COLUMN", "TABLE"])
  discard qualifiedName
  expectKeywords ["IS"]
  if !(← keyword "NULL") then discard literalText

-- A condition that has to hold, and what is said if it does not.
def assert : Reader Unit := do
  discard below.expression
  discard (announced ["AS"] below.expression)

def check : Reader Unit := do
  discard (keyword "REPAIR")
  expectKeywords ["TABLE"]
  discard qualifiedName
  discard <| attempt do
    discard (keywordOf ["ADD", "DROP", "SYNC"])
    expectKeywords ["PARTITIONS"]

-- A table that is kept at hand, perhaps as the answer of a query. Only the end of the text may stand for the query.
def cache : Reader Unit := do
  if !(← keyword "TABLE") then
    discard qualifiedName
    expectKeywords ["TABLE"]
  discard qualifiedName
  Definition.settings "OPTIONS"
  match ← peek with
  | none => pure ()
  | some t =>
    require (t matches .word ..)
    discard (keyword "AS")
    discard below.query

def uncache : Reader Unit := do
  expectKeywords ["TABLE"]
  Definition.ifExists
  discard qualifiedName

def copyOption : Reader Unit := do
  match ← expectKeywordOf ["FORMAT", "FREEZE", "DELIMITER", "NULL", "HEADER", "QUOTE", "ESCAPE", "FORCE_QUOTE",
      "FORCE_NOT_NULL", "FORCE_NULL", "ENCODING"] with
  | "FORMAT" => discard ident
  | "FREEZE" | "HEADER" => discard (keywordOf ["TRUE", "FALSE"])
  | "DELIMITER" | "QUOTE" | "ESCAPE" => discard literalCharacter
  | "NULL" | "ENCODING" => discard literalText
  | _ => discard columnNames

def separatedOption : Reader Unit := do
  match ← expectKeywordOf ["HEADER", "QUOTE", "ESCAPE", "FORCE"] with
  | "HEADER" => pure ()
  | "FORCE" =>
    require ((← keywords ["NOT", "NULL"]) || (← keyword "QUOTE"))
    discard (commaSeparated ident)
  | _ =>
    discard (keyword "AS")
    discard literalCharacter

def earlierCopyOption : Reader Unit := do
  match ← expectKeywordOf ["BINARY", "DELIMITER", "NULL", "CSV"] with
  | "DELIMITER" =>
    discard (keyword "AS")
    discard literalCharacter
  | "NULL" =>
    discard (keyword "AS")
    discard literalText
  | "CSV" => discard (many (attempt separatedOption))
  | _ => pure ()

def copiedRows : Reader Unit :=
  discard <| many do
    match ← next? with
    | none => pure none
    | some (.symbol "\\") =>
      if ← symbol "." then pure none
      else
        discard next?
        pure (some ())
    | some _ => pure (some ())

-- A copy of a table from or to a file; the rows of a query only go to one.
def copy : Reader Unit := do
  let isQuery ← isSymbolAhead "("
  if isQuery then discard (parenthesized below.query)
  else
    discard qualifiedName
    discard optionalColumnNames
  let way ← expectKeywordOf ["FROM", "TO"]
  require !(isQuery && way == "FROM")
  let place ← keywordOf ["STDIN", "STDOUT", "PROGRAM"]
  if place.isNone || place == some "PROGRAM" then discard literalText
  discard (keyword "WITH")
  discard (optionalParenthesized (commaSeparated copyOption))
  discard (many (attempt earlierCopyOption))
  if place == some "STDIN" then
    expect ";"
    copiedRows

end Subplans.Sql.Maintenance
