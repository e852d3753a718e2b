import Subplans.Sql.Level
import Subplans.Sql.TypeName

/-!
Statements of SQL text that steer a session.

Settings, transactions, cursors and prepared statements. They are only recognized. Each reader stands for what
follows the first word of the statement.
-/

namespace Subplans.Sql.Session

open Reader Level

variable (below : Level)

def transactionMode : Reader (Option Unit) := do
  if ← keywords ["ISOLATION", "LEVEL"] then
    if (← keywords ["READ", "UNCOMMITTED"]) || (← keywords ["READ", "COMMITTED"]) ||
      (← keywords ["REPEATABLE", "READ"]) then pure (some ())
    else some <$> expectKeywords ["SERIALIZABLE"]
  else if (← keywords ["READ", "ONLY"]) || (← keywords ["READ", "WRITE"]) then pure (some ())
  else pure none

-- Modes of a transaction. Commas between them may be left out; after a comma there has to be one.
def transactionModes : Reader Unit := do
  if (← transactionMode).isNone then return
  discard <| many do
    let comma ← symbol ","
    let mode ← transactionMode
    require (!comma || mode.isSome)
    pure mode

-- The start of a transaction, whose noun may be left out.
def begin : Reader Unit := do
  discard (keywordOf ["TRANSACTION", "WORK"])
  transactionModes

def finish : Reader Unit := do
  discard (keywordOf ["TRANSACTION", "WORK"])
  if ← keyword "AND" then
    discard (keyword "NO")
    expectKeywords ["CHAIN"]

def role : Reader Unit := do
  expectKeywords ["ROLE"]
  if !(← keyword "NONE") then discard ident

-- What follows the name of a setting. Two of the names are special in capital letters, and one in any.
def settingValue (name : String) (isPlain : Bool) : Reader Unit := do
  if (← symbol "=") || (← keyword "TO") then discard (commaSeparated below.expression)
  else if Text.equalsIgnoringCase name "TIMEZONE" then discard below.expression
  else if name == "CHARACTERISTICS" then
    expectKeywords ["AS", "TRANSACTION"]
    transactionModes
  else
    require (name == "TRANSACTION" && isPlain)
    if ← keyword "SNAPSHOT" then discard value else transactionModes

def set : Reader Unit := do
  let scope ← keywordOf ["SESSION", "LOCAL", "HIVEVAR"]
  let isDone ← if scope == some "HIVEVAR" then expect ":" *> pure false
    else do pure (← attempt role).isSome
  if isDone then return
  let name ← if ← keywords ["TIME", "ZONE"] then pure "TIMEZONE" else nameText <$> qualifiedName
  settingValue below name scope.isNone

def showFilter : Reader Unit := do
  match ← keywordOf ["LIKE", "ILIKE", "WHERE"] with
  | some "WHERE" => discard below.expression
  | some _ => discard literalText
  | none => pure ()

def showPlace : Reader Unit := do
  if (← keywordOf ["FROM", "IN"]).isSome then discard ident

def variableName : Reader Unit :=
  discard <| many do
    match ← peek with
    | none | some (.symbol "=") => pure none
    | some _ => some <$> next

def inspect : Reader Unit := do
  let extended ← keyword "EXTENDED"
  let full ← keyword "FULL"
  match ← keywordOf ["COLUMNS", "FIELDS", "TABLES", "FUNCTIONS"] with
  | some "TABLES" =>
    showPlace
    showFilter below
  | some "FUNCTIONS" => showFilter below
  | some _ =>
    discard (expectKeywordOf ["FROM", "IN"])
    discard qualifiedName
    showPlace
    showFilter below
  | none =>
    require (!extended && !full)
    match ← keywordOf ["CREATE", "COLLATION"] with
    | some "CREATE" =>
      discard (expectKeywordOf ["TABLE", "TRIGGER", "FUNCTION", "PROCEDURE", "EVENT", "VIEW"])
      discard qualifiedName
    | some _ => showFilter below
    | none => variableName

def kill : Reader Unit := do
  discard (keywordOf ["CONNECTION", "QUERY"])
  discard wholeNumber

def forget : Reader Unit :=
  discard (expectKeywordOf ["ALL", "PLANS", "SEQUENCES", "TEMP", "TEMPORARY"])

def declare : Reader Unit := do
  discard ident
  discard (keyword "BINARY")
  discard (keywordOf ["INSENSITIVE", "ASENSITIVE"])
  if !(← keyword "SCROLL") then discard (keywords ["NO", "SCROLL"])
  expectKeywords ["CURSOR"]
  if (← keywordOf ["WITH", "WITHOUT"]).isSome then expectKeywords ["HOLD"]
  expectKeywords ["FOR"]
  discard below.query

def direction : Reader Unit := do
  match ← keywordOf ["NEXT", "PRIOR", "FIRST", "LAST", "ALL", "ABSOLUTE", "RELATIVE", "FORWARD", "BACKWARD"] with
  | some "ABSOLUTE" | some "RELATIVE" | none => discard numberValue
  | some "FORWARD" | some "BACKWARD" => if !(← keyword "ALL") then discard numberValue
  | some _ => pure ()

-- Rows of a cursor, which may be put into a table.
def fetch : Reader Unit := do
  direction
  discard (expectKeywordOf ["FROM", "IN"])
  discard ident
  discard (announced ["INTO"] qualifiedName)

def close : Reader Unit := do
  if !(← keyword "ALL") then discard ident

-- A statement that is kept under a name, perhaps with the types of its parameters.
def prepare : Reader Unit := do
  discard ident
  discard (optionalParenthesized (commaSeparated TypeName.reader))
  expectKeywords ["AS"]
  discard below.statement

def execute : Reader Unit := do
  discard ident
  discard (optionalParenthesized below.phrases)

def deallocate : Reader Unit := do
  discard (keyword "PREPARE")
  discard ident

-- Something that may be done, perhaps only with some columns.
def privilege : Reader Unit := do
  match ← expectKeywordOf ["CONNECT", "CREATE", "DELETE", "EXECUTE", "INSERT", "REFERENCES", "SELECT", "TEMPORARY",
      "TRIGGER", "TRUNCATE", "UPDATE", "USAGE"] with
  | "INSERT" | "REFERENCES" | "SELECT" | "UPDATE" => discard optionalColumnNames
  | _ => pure ()

-- What may be done, and with which objects.
def privileges : Reader Unit := do
  if ← keyword "ALL" then discard (keyword "PRIVILEGES") else discard (commaSeparated privilege)
  expectKeywords ["ON"]
  if !(← keywords ["ALL", "TABLES", "IN", "SCHEMA"]) && !(← keywords ["ALL", "SEQUENCES", "IN", "SCHEMA"]) then
    discard (keywordOf ["SEQUENCE", "SCHEMA", "TABLE"])
  discard (commaSeparated qualifiedName)

def grant : Reader Unit := do
  privileges
  expectKeywords ["TO"]
  discard (commaSeparated ident)
  discard (keywords ["WITH", "GRANT", "OPTION"])
  discard (announced ["GRANTED", "BY"] ident)

def revoke : Reader Unit := do
  privileges
  expectKeywords ["FROM"]
  discard (commaSeparated ident)
  discard (announced ["GRANTED", "BY"] ident)
  let cascade ← keyword "CASCADE"
  let restrict ← keyword "RESTRICT"
  require !(cascade && restrict)

end Subplans.Sql.Session
