import Subplans.Sql.Column

/-!
Statements of SQL text that create something.

They are only recognized. Each reader stands for what follows the word that says what is created.
-/

namespace Subplans.Sql.Definition

open Reader Level

variable (below : Level)

-- A name, or what stands where one should; then its tokens are passed over up to the first that does not fit.
def nameOrJunk : Reader Unit :=
  discard <| many do
    match ← next? with
    | some (.word ..) | some (.literal (.plain _)) => pure (if ← symbol "." then some () else none)
    | _ => pure none

def assignedWord : Reader Unit := do
  expect "="
  discard word

def cluster : Reader Unit := do
  match ← next with
  | .word .. | .literal (.plain _) => pure ()
  | _ => failure

-- The names of the columns that rows are kept in order of: one, or several in parentheses.
def keyColumns : Reader Unit := do
  if ← isSymbolAhead "(" then discard (parenthesizedItems ident) else discard ident

def endOfTransaction : Reader Unit := do
  if !(← keywords ["ON", "COMMIT", "DELETE", "ROWS"]) && !(← keywords ["ON", "COMMIT", "PRESERVE", "ROWS"]) then
    discard (keywords ["ON", "COMMIT", "DROP"])

def table : Reader Unit := do
  ifNotExists
  discard qualifiedName
  discard (announced ["ON", "CLUSTER"] cluster)
  if (← keywordOf ["LIKE", "ILIKE"]).isSome then nameOrJunk
  if ← keyword "CLONE" then nameOrJunk
  columns below
  discard (keywords ["WITHOUT", "ROWID"])
  storage below
  settings "WITH"
  settings "TBLPROPERTIES"
  discard (announced ["ENGINE"] assignedWord)
  discard (announced ["ORDER", "BY"] keyColumns)
  discard (announced ["AS"] below.query)
  discard (announced ["DEFAULT", "CHARSET"] assignedWord)
  discard (announced ["COLLATE"] assignedWord)
  endOfTransaction
  discard (keyword "STRICT")

def externalTable : Reader Unit := do
  expectKeywords ["TABLE"]
  ifNotExists
  discard qualifiedName
  columns below
  storage below
  settings "TBLPROPERTIES"

def virtualTable : Reader Unit := do
  expectKeywords ["TABLE"]
  ifNotExists
  discard qualifiedName
  expectKeywords ["USING"]
  discard ident
  discard optionalColumnNames

def view : Reader Unit := do
  discard qualifiedName
  discard optionalColumnNames
  settings "WITH"
  discard (announced ["CLUSTER"] (expectKeywords ["BY"] *> optionalColumnNames))
  expectKeywords ["AS"]
  discard below.query

def index : Reader Unit := do
  ifNotExists
  discard qualifiedName
  expectKeywords ["ON"]
  discard qualifiedName
  discard (announced ["USING"] ident)
  discard (parenthesized below.sortKeys)

-- A parameter of a function. Its name may be missing; a name that is no known type is one if a type follows.
def functionParameter : Reader Unit := do
  discard (keywordOf ["IN", "OUT", "INOUT"])
  let first ← TypeName.reader
  if first.form == .custom then discard TypeName.reader
  if (← keyword "DEFAULT") || (← symbol "=") then discard below.expression

def functionText : Reader Unit := do
  match ← peek with
  | some (.literal (.dollar ..)) => discard next
  | _ => discard literalText

inductive FunctionClause
  | text | language | volatility | result
deriving DecidableEq

def functionClause : Reader (Option FunctionClause) := do
  match ← keywordOf ["AS", "LANGUAGE", "IMMUTABLE", "STABLE", "VOLATILE", "RETURN"] with
  | some "AS" => functionText *> pure (some .text)
  | some "LANGUAGE" => ident *> pure (some .language)
  | some "RETURN" => below.expression *> pure (some .result)
  | some _ => pure (some .volatility)
  | none => pure none

def function : Reader Unit := do
  discard qualifiedName
  discard (parenthesizedItems (functionParameter below))
  discard (announced ["RETURNS"] TypeName.reader)
  let clauses ← many (functionClause below)
  require (decide clauses.Nodup)

-- The parameters of a procedure. They may be missing between the commas.
def procedureParameters : Reader Unit := do
  if !(← symbol "(") || (← symbol ")") then return
  let parameter := do
    if (← peek) matches some (.word ..) then
      discard ident
      discard TypeName.reader
  parameter
  discard <| many do
    let comma ← symbol ","
    if ← isSymbolAhead ")" then pure none
    else
      require comma
      some <$> parameter
  expect ")"

def extension : Reader Unit := do
  ifNotExists
  discard ident
  if ← keyword "WITH" then
    discard (announced ["SCHEMA"] ident)
    discard (announced ["VERSION"] ident)
    discard (keyword "CASCADE")

-- A schema, which may be named for its owner.
def schema : Reader Unit := do
  ifNotExists
  if ← keyword "AUTHORIZATION" then discard ident
  else
    discard qualifiedName
    discard (announced ["AUTHORIZATION"] ident)

def database : Reader Unit := do
  ifNotExists
  discard qualifiedName
  discard <| many do
    match ← keywordOf ["LOCATION", "MANAGEDLOCATION"] with
    | some _ => some <$> literalText
    | none => pure none

def sequence : Reader Unit := do
  ifNotExists
  discard qualifiedName
  discard (announced ["AS"] TypeName.reader)
  sequenceOptions
  if ← keywords ["OWNED", "BY"] then
    if !(← keyword "NONE") then discard qualifiedName

def field : Reader Unit := do
  discard ident
  discard TypeName.reader
  collation

def type : Reader Unit := do
  discard qualifiedName
  expectKeywords ["AS"]
  discard (definitions field)

def roleRights : List (String × List String) :=
  [("login", ["LOGIN", "NOLOGIN"]), ("inheritance", ["INHERIT", "NOINHERIT"]),
    ("row security", ["BYPASSRLS", "NOBYPASSRLS"]), ("databases", ["CREATEDB", "NOCREATEDB"]),
    ("roles", ["CREATEROLE", "NOCREATEROLE"]), ("everything", ["SUPERUSER", "NOSUPERUSER"]),
    ("replication", ["REPLICATION", "NOREPLICATION"])]

def roleOption : Reader (Option String) := do
  let rights := (roleRights.map Prod.snd).flatten
  let about := fun (word : String) => (roleRights.find? (·.2.contains word)).map Prod.fst
  match ← keywordOf (rights ++ ["PASSWORD", "CONNECTION", "VALID", "IN", "ROLE", "ADMIN", "USER"]) with
  | some "PASSWORD" => value *> pure (some "password")
  | some "CONNECTION" => expectKeywords ["LIMIT"] *> numberValue *> pure (some "connections")
  | some "VALID" => expectKeywords ["UNTIL"] *> value *> pure (some "validity")
  | some "IN" => do
    let kind ← expectKeywordOf ["ROLE", "GROUP"]
    commaSeparated ident *> pure (some ("in " ++ kind))
  | some word =>
    match about word with
    | some right => pure (some right)
    | none => commaSeparated ident *> pure (some word)
  | none => pure none

-- Roles. No two options may be about the same.
def roles : Reader Unit := do
  ifNotExists
  discard (commaSeparated qualifiedName)
  discard (keyword "WITH")
  let options ← many roleOption
  require (decide options.Nodup)

-- What follows the word CREATE, apart from what tells how long the object lives. Only some objects may replace others.
def object (block : Reader Unit) (replaces : Bool) : Reader Unit := do
  if ← keyword "TABLE" then table below
  else if ← keyword "MATERIALIZED" then
    expectKeywords ["VIEW"]
    view below
  else if ← keyword "VIEW" then view below
  else if ← keyword "EXTERNAL" then externalTable below
  else if ← keyword "FUNCTION" then function below
  else
    require !replaces
    if ← keyword "UNIQUE" then
      expectKeywords ["INDEX"]
      index below
    else
      match ← expectKeywordOf ["EXTENSION", "INDEX", "VIRTUAL", "SCHEMA", "DATABASE", "ROLE", "SEQUENCE", "TYPE",
          "PROCEDURE"] with
      | "EXTENSION" => extension
      | "INDEX" => index below
      | "VIRTUAL" => virtualTable
      | "SCHEMA" => schema
      | "DATABASE" => database
      | "ROLE" => roles
      | "SEQUENCE" => sequence
      | "TYPE" => type
      | _ =>
        discard qualifiedName
        procedureParameters
        expectKeywords ["AS", "BEGIN"]
        block
        expectKeywords ["END"]

-- The rest of a statement that creates something. `block` reads the statements of a procedure.
def create (block : Reader Unit) : Reader Unit := do
  let replaces ← keywords ["OR", "REPLACE"]
  discard (keywords ["OR", "ALTER"])
  discard (keyword "LOCAL")
  discard (keyword "GLOBAL")
  discard (keyword "TRANSIENT")
  discard (keywordOf ["TEMP", "TEMPORARY"])
  object below block replaces

end Subplans.Sql.Definition
