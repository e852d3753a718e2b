import Subplans.Sql.Table

/-!
SELECT in SQL text.

The tables and the condition are kept; all other clauses are read and written out. They are read in the order in
which they are written, and each of them may be missing.
-/

namespace Subplans.Sql

open Reader Level Expression

variable (below : Level)

def itemFilter : Reader Phrase := do
  let opened ← attempt do
    expectKeywords ["FILTER"]
    expect "("
    expectKeywords ["WHERE"]
  if opened.isNone then return {}
  let condition ← below.phrase
  expect ")"
  pure (" FILTER (WHERE " ++ condition ++ ")")

def selectItem : Reader Phrase :=
  wildcardOr do
    let e ← below.phrase
    let filter ← itemFilter below
    let named ← aliasName reservedForColumns
    pure (e ++ filter ++ (named.map fun name => " AS " ++ name.text).getD "")

def selectItems : Reader Phrase := do
  pure (Phrase.list (← commaSeparated (selectItem below)))

def top : Reader Phrase := do
  let quantity : Phrase ← if ← isSymbolAhead "(" then parenthesized below.phrase else do pure (← numberValue)
  let percent := if ← keyword "PERCENT" then " PERCENT" else ""
  let ties := if ← keywords ["WITH", "TIES"] then " WITH TIES" else ""
  pure ("TOP (" ++ quantity ++ ")" ++ percent ++ ties)

def destination : Reader Phrase := do
  let temporary := if (← keywordOf ["TEMP", "TEMPORARY"]).isSome then "TEMPORARY " else ""
  let unlogged := if ← keyword "UNLOGGED" then "UNLOGGED " else ""
  let table := if ← keyword "TABLE" then "TABLE " else ""
  pure (temporary ++ unlogged ++ table ++ nameText (← qualifiedName) : String)

def lateralView : Reader (Option Phrase) := do
  if !(← keywords ["LATERAL", "VIEW"]) then return none
  let outer := if ← keyword "OUTER" then "OUTER " else ""
  let e ← below.phrase
  let name ← qualifiedName
  let columns ← commaSeparated (aliasName ["WHERE", "GROUP", "CLUSTER", "HAVING", "LATERAL"])
  let columns := columns.filterMap id
  pure (some (" LATERAL VIEW " ++ outer ++ e ++ " " ++ nameText name ++
    (if columns.isEmpty then "" else " AS " ++ namesText columns)))

-- Expressions in parentheses, of which there may be none.
def groupingSet : Reader (List Phrase) :=
  parenthesizedItems below.phrase

-- Expressions in parentheses or a single one. Parentheses around a single one are not written.
def groupingElement : Reader Phrase := do
  match ← if ← isSymbolAhead "(" then groupingSet below else do pure [← below.phrase] with
  | [e] => pure e
  | es => pure ("(" ++ Phrase.list es ++ ")")

def grouping : Reader Phrase := do
  if ← keywords ["GROUPING", "SETS"] then
    let sets ← parenthesized (commaSeparated (groupingSet below))
    pure ("GROUPING SETS (" ++ Phrase.list (sets.map fun set => "(" ++ Phrase.list set ++ ")") ++ ")")
  else
    match ← keywordOf ["CUBE", "ROLLUP"] with
    | some word => pure (word ++ " (" ++ Phrase.list (← parenthesized (commaSeparated (groupingElement below))) ++ ")")
    | none => below.phrase

def namedWindow : Reader Phrase := do
  let name ← ident
  expectKeywords ["AS"]
  pure (name.text ++ " AS " ++ (← windowSpecification below (reaching below)))

def laterClauses : Reader Phrase := do
  let clauses ← [
    clause ["GROUP", "BY"] (Phrase.list <$> commaSeparated (grouping below)),
    clause ["CLUSTER", "BY"] below.phrases,
    clause ["DISTRIBUTE", "BY"] below.phrases,
    clause ["SORT", "BY"] below.phrases,
    clause ["HAVING"] below.phrase,
    clause ["WINDOW"] (Phrase.list <$> commaSeparated (namedWindow below)),
    clause ["QUALIFY"] below.phrase].mapM id
  pure (Phrase.join "" clauses)

def select : Reader (Meaning Select) := do
  let distinct ← distinctness below
  let top ← announced ["TOP"] (top below)
  let items ← selectItems below
  let into ← clause ["INTO"] destination
  let sources ← announced ["FROM"] (fromItems below)
  let views ← many (lateralView below)
  let condition ← announced ["WHERE"] below.expression
  let clauses ← laterClauses below
  let phrase : Phrase := "SELECT" ++ Phrase.spaced distinct ++ Phrase.spaced top ++ " " ++ items ++ into ++
    (sources.map fun (s : Meaning (List FromItem)) => " FROM " ++ s.phrase).getD {} ++ Phrase.join "" views ++
    (condition.map fun e => " WHERE " ++ Phrase.ofExpr e).getD {} ++ clauses
  pure ⟨phrase, ⟨(sources.map Meaning.value).getD [], condition⟩⟩

-- Rows that are given by their values, after the word that announces them. If one of them has the word ROW before it,
-- all are written with it.
def givenRows : Reader Phrase := do
  let rows ← commaSeparated do
    let worded ← keyword "ROW"
    pure (worded, ← parenthesized below.phrases)
  let word := if rows.any Prod.fst then "ROW" else ""
  pure ("VALUES " ++ Phrase.list (rows.map fun (_, values) => word ++ "(" ++ values ++ ")"))

end Subplans.Sql
