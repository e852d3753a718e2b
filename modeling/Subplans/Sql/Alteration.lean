import Subplans.Sql.Creation

/-!
Statements of SQL text that alter or drop something.

They are only recognized. Each reader stands for what follows the first word of the statement.
-/

namespace Subplans.Sql.Definition

open Reader Level

variable (below : Level)

def addition : Reader Unit := do
  if (← tableConstraint below).isSome then return
  ifNotExists
  if ← keyword "PARTITION" then discard (partitionValues below)
  else
    discard (keyword "COLUMN")
    ifNotExists
    column below

def newName : Reader Unit := do
  discard ident
  expectKeywords ["TO"]
  discard ident

def newNames : Reader Unit := do
  if ← keyword "CONSTRAINT" then newName
  else if ← keyword "TO" then discard qualifiedName
  else
    discard (keyword "COLUMN")
    newName

def removal : Reader Unit := do
  if (← keywords ["IF", "EXISTS", "PARTITION"]) || (← keyword "PARTITION") then discard (partitionValues below)
  else
    if !(← keyword "CONSTRAINT") then
      discard (keywords ["PRIMARY", "KEY"])
      discard (keyword "COLUMN")
    ifExists
    discard ident
    discard (keyword "CASCADE")

def change : Reader Unit := do
  discard (keyword "COLUMN")
  discard ident
  discard ident
  discard TypeName.reader
  discard (many (columnOption below))

def columnAlteration : Reader Unit := do
  discard (keyword "COLUMN")
  discard ident
  if (← keywords ["SET", "NOT", "NULL"]) || (← keywords ["DROP", "NOT", "NULL"]) then pure ()
  else if ← keywords ["SET", "DEFAULT"] then discard below.expression
  else if ← keywords ["DROP", "DEFAULT"] then pure ()
  else
    require ((← keywords ["SET", "DATA", "TYPE"]) || (← keyword "TYPE"))
    discard TypeName.reader
    discard (announced ["USING"] below.expression)

def alterTable : Reader Unit := do
  discard (keyword "ONLY")
  discard qualifiedName
  match ← expectKeywordOf ["ADD", "RENAME", "DROP", "PARTITION", "CHANGE", "ALTER", "SWAP"] with
  | "ADD" => addition below
  | "RENAME" => newNames
  | "DROP" => removal below
  | "PARTITION" =>
    discard (partitionValues below)
    expectKeywords ["RENAME", "TO", "PARTITION"]
    discard (partitionValues below)
  | "CHANGE" => change below
  | "ALTER" => columnAlteration below
  | _ =>
    expectKeywords ["WITH"]
    discard qualifiedName

def alter : Reader Unit := do
  match ← expectKeywordOf ["TABLE", "INDEX"] with
  | "TABLE" => alterTable below
  | _ =>
    discard qualifiedName
    expectKeywords ["RENAME", "TO"]
    discard qualifiedName

-- Functions that are dropped. Their parameters may tell which are meant.
def dropFunctions : Reader Unit := do
  ifExists
  discard <| commaSeparated do
    discard qualifiedName
    discard (optionalParenthesized do
      if ← isSymbolAhead ")" then pure [] else commaSeparated (functionParameter below))
  discard (keywordOf ["CASCADE", "RESTRICT"])

def drop : Reader Unit := do
  match ← expectKeywordOf ["TABLE", "VIEW", "INDEX", "ROLE", "SCHEMA", "SEQUENCE", "STAGE", "FUNCTION"] with
  | "FUNCTION" => dropFunctions below
  | kind =>
    ifExists
    discard (commaSeparated qualifiedName)
    let cascade ← keyword "CASCADE"
    let restrict ← keyword "RESTRICT"
    let purge ← keyword "PURGE"
    require !(cascade && restrict)
    require !(kind == "ROLE" && (cascade || restrict || purge))

end Subplans.Sql.Definition
