import Subplans.Sql.Alteration
import Subplans.Sql.Maintenance
import Subplans.Sql.Query
import Subplans.Sql.Session

/-!
Statements of SQL text.

A text holds any number of statements with semicolons between them. Of each it is told whether it is a single
SELECT and what this selects; other statements are recognized and not looked into. `level` ties statements, queries
and expressions together, and `Statement.ofText?` reads a text.
-/

namespace Subplans.Sql

open Reader

namespace Statement

def semicolons : Reader Bool := do
  let found ← many do
    if ← symbol ";" then pure (some ()) else pure none
  pure (!found.isEmpty)

def isEndAhead : Reader Bool := do
  pure ((← peek).isNone || (← isAhead ["END"]))

-- Statements with semicolons between them, up to the end or to a word that ends a block of them.
def block (statement : Reader Statement) : Reader (List Statement) := do
  discard semicolons
  many do
    if ← isEndAhead then pure none
    else
      let s ← statement
      let separated ← semicolons
      require (separated || (← isEndAhead))
      pure (some s)

variable (below : Level)

-- What is explained: a statement that explains no other, or a table.
def explained : Reader Unit := do
  discard (keyword "ANALYZE")
  discard (keyword "VERBOSE")
  discard (announced ["FORMAT"] (expectKeywordOf ["TEXT", "GRAPHVIZ", "JSON"]))
  match ← attempt below.statement with
  | some s => require !(s matches .explanation)
  | none => discard qualifiedName

-- What follows the first word of a statement that is no query.
def rest (word : String) : Reader Unit :=
  match word with
  | "ALTER" => Definition.alter below
  | "ANALYZE" => Maintenance.analyze below
  | "ASSERT" => Maintenance.assert below
  | "BEGIN" => Session.begin
  | "CACHE" => Maintenance.cache below
  | "CLOSE" => Session.close
  | "COMMENT" => Maintenance.comment
  | "COMMIT" => Session.finish
  | "COPY" => Maintenance.copy below
  | "CREATE" => Definition.create below (discard (block below.statement))
  | "DEALLOCATE" => Session.deallocate
  | "DECLARE" => Session.declare below
  | "DELETE" => delete below
  | "DISCARD" => Session.forget
  | "DROP" => Definition.drop below
  | "EXECUTE" => Session.execute below
  | "FETCH" => Session.fetch
  | "GRANT" => Session.grant
  | "INSERT" => discard (insert below)
  | "KILL" => Session.kill
  | "MERGE" => merge below
  | "MSCK" => Maintenance.check
  | "PREPARE" => Session.prepare below
  | "REVOKE" => Session.revoke
  | "ROLLBACK" => Session.finish
  | "SAVEPOINT" => discard ident
  | "SET" => Session.set below
  | "SHOW" => Session.inspect below
  | "START" => expectKeywords ["TRANSACTION"] *> Session.transactionModes
  | "TRUNCATE" => truncate below
  | "UNCACHE" => Maintenance.uncache
  | "UPDATE" => discard (update below)
  | "USE" => discard ident
  | _ => failure

def reader : Reader Statement := do
  if (← isSymbolAhead "(") || (← isAhead ["SELECT", "WITH", "VALUES"]) then
    match (← below.query).value with
    | some s => pure (.select s)
    | none => pure .other
  else
    match ← next with
    | .word _ "EXPLAIN" | .word _ "DESCRIBE" => explained below *> pure .explanation
    | .word _ capitals => rest below capitals *> pure .other
    | _ => failure

end Statement

-- Readers for statements, queries and expressions of which at most `depth` may stand inside each other.
def level : (depth : Nat) → Level
  | 0 => ⟨failure, failure, failure⟩
  | depth + 1 =>
    let below := level depth
    ⟨Expression.reader below, query below, Statement.reader below⟩

namespace Statement

def maxNesting : Nat := 50

-- The statements of a text, up to its end or to a word that ends a block. None if it is no SQL.
def ofText? (text : String) : Option (List Statement) := do
  let (found, _) ← block (level maxNesting).statement (← tokens? text.toList)
  pure found

end Statement

end Subplans.Sql
