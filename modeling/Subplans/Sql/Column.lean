import Subplans.Sql.Change

/-!
Columns and constraints in the definitions of tables.

Definitions of this kind are only recognized: the readers tell whether a text is one and take its tokens.
-/

namespace Subplans.Sql.Definition

open Reader Level

variable (below : Level)

def ifNotExists : Reader Unit :=
  discard (keywords ["IF", "NOT", "EXISTS"])

-- Words that leave something alone that is not there.
def ifExists : Reader Unit :=
  discard (keywords ["IF", "EXISTS"])

def announcedNumber (word : String) (filler : List String) : Reader Unit := do
  if ← keyword word then
    discard (keywordOf filler)
    discard numberValue

def sequenceBound (word : String) : Reader Unit := do
  if ← keyword word then discard numberValue else discard (keywords ["NO", word])

def sequenceOptions : Reader Unit := do
  announcedNumber "INCREMENT" ["BY"]
  sequenceBound "MINVALUE"
  sequenceBound "MAXVALUE"
  announcedNumber "START" ["WITH"]
  announcedNumber "CACHE" []
  discard (keyword "NO")
  discard (keyword "CYCLE")

def referentialAction : Reader Unit := do
  match ← expectKeywordOf ["RESTRICT", "CASCADE", "SET", "NO"] with
  | "SET" => discard (expectKeywordOf ["NULL", "DEFAULT"])
  | "NO" => expectKeywords ["ACTION"]
  | _ => pure ()

-- Both referential actions, each at most once and in any order.
def referentialActions : Reader Unit := do
  let onDelete := announced ["ON", "DELETE"] referentialAction
  let onUpdate := announced ["ON", "UPDATE"] referentialAction
  if (← onDelete).isSome then discard onUpdate
  else if (← onUpdate).isSome then discard onDelete

def check : Reader Unit :=
  discard (parenthesized below.expression)

def tableConstraint : Reader (Option Unit) := do
  let name ← announced ["CONSTRAINT"] ident
  match ← keywordOf ["PRIMARY", "UNIQUE", "FOREIGN", "CHECK"] with
  | some "FOREIGN" =>
    expectKeywords ["KEY"]
    discard columnNames
    expectKeywords ["REFERENCES"]
    discard qualifiedName
    discard columnNames
    some <$> referentialActions
  | some "CHECK" => some <$> check below
  | some "PRIMARY" =>
    expectKeywords ["KEY"]
    some <$> discard columnNames
  | some _ => some <$> discard columnNames
  | none =>
    require name.isNone
    pure none

-- How the values of a column are generated, after the word that announces it; none if that is not told.
def generation : Reader (Option Unit) := do
  if (← keywords ["ALWAYS", "AS", "IDENTITY"]) || (← keywords ["BY", "DEFAULT", "AS", "IDENTITY"]) then
    some <$> discard (optionalParenthesized sequenceOptions)
  else if ← keywords ["ALWAYS", "AS"] then
    match ← optionalParenthesized below.expression with
    | some _ => some <$> discard (keyword "STORED")
    | none => pure none
  else pure none

def wordedOption (word : String) : Reader Unit :=
  match word with
  | "COMMENT" => discard plainText
  | "DEFAULT" => discard below.expression
  | "REFERENCES" => do
    discard qualifiedName
    discard optionalColumnNames
    referentialActions
  | "CHECK" => check below
  | _ => pure ()

-- An option of a column, if one comes next. Words that count the values up are passed over and are none.
def columnOption : Reader (Option Unit) := do
  if ← keywords ["CHARACTER", "SET"] then return some (← discard qualifiedName)
  if (← keywords ["NOT", "NULL"]) || (← keywords ["PRIMARY", "KEY"]) then return some ()
  match ← keywordOf ["COMMENT", "NULL", "DEFAULT", "UNIQUE", "REFERENCES", "CHECK"] with
  | some word => some <$> wordedOption below word
  | none =>
    discard (keyword "AUTO_INCREMENT")
    discard (keyword "AUTOINCREMENT")
    discard (keywords ["ON", "UPDATE"])
    if ← keyword "GENERATED" then generation below else pure none

def namedOption : Reader (Option Unit) := do
  match ← announced ["CONSTRAINT"] ident with
  | none => columnOption below
  | some _ =>
    let option ← columnOption below
    require option.isSome
    pure option

def collation : Reader Unit :=
  discard (announced ["COLLATE"] qualifiedName)

def column : Reader Unit := do
  discard ident
  discard TypeName.reader
  collation
  discard (many (namedOption below))

-- A column or a constraint. The name of a column is no quoted text.
def columnOrConstraint : Reader Unit := do
  if (← tableConstraint below).isSome then pure ()
  else
    let ahead ← peek
    require (ahead matches some (.word ..))
    column below

def columns : Reader Unit :=
  discard (definitions (columnOrConstraint below))

def setting : Reader Unit := do
  discard ident
  expect "="
  discard value

def settings (word : String) : Reader Unit :=
  discard (announced [word] (parenthesized (commaSeparated setting)))

def partitioning : Reader Unit :=
  discard (announced ["PARTITIONED", "BY"] (parenthesized (commaSeparated (column below))))

def storageClause : Reader (Option Unit) := do
  match ← keywordOf ["ROW", "STORED", "LOCATION"] with
  | some "ROW" =>
    expectKeywords ["FORMAT"]
    match ← keywordOf ["SERDE", "DELIMITED"] with
    | some "SERDE" => some <$> discard literalText
    | _ => pure (some ())
  | some "STORED" =>
    expectKeywords ["AS"]
    if ← keyword "INPUTFORMAT" then
      discard below.expression
      expectKeywords ["OUTPUTFORMAT"]
      some <$> discard below.expression
    else some <$> discard fileFormat
  | some _ => some <$> discard literalText
  | none => pure none

def storage : Reader Unit := do
  partitioning below
  discard (many (storageClause below))

end Subplans.Sql.Definition
