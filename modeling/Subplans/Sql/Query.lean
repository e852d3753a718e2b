import Subplans.Sql.Change

/-!
Queries of SQL text.

Of a query that is a single SELECT it is told what it selects, whatever else stands before and after that.
-/

namespace Subplans.Sql

open Reader Level

variable (below : Level)

-- A table that stands for all its rows, after the word that announces it. Three tokens are taken for its name, whatever
-- they are, unless the text ends before.
def wholeTable : Reader String := do
  let first ← next?
  let second ← next?
  let third ← next?
  match first, second, third with
  | some (.word space _), some (.symbol "."), some (.word name _) =>
    pure ("TABLE " ++ space.name ++ "." ++ name.name)
  | some (.word _ _), some (.symbol "."), _ => failure
  | some (.word name _), _, _ => pure ("TABLE " ++ name.name)
  | _, _, _ => failure

def term : Reader (Meaning (Option Select)) := do
  if ← keyword "SELECT" then
    let s ← select below
    pure ⟨s.phrase, some s.value⟩
  else if ← isSymbolAhead "(" then pure ⟨"(" ++ (← parenthesized below.queryPhrase) ++ ")", none⟩
  else if ← keyword "VALUES" then pure ⟨← givenRows below, none⟩
  else
    expectKeywords ["TABLE"]
    pure ⟨← wholeTable, none⟩

def terms : Reader (Meaning (Option Select)) := do
  let step := fun (left : Meaning (Option Select)) => do
    match ← keywordOf ["UNION", "EXCEPT", "INTERSECT"] with
    | none => pure none
    | some operator =>
      let quantifier := ((← keywordOf ["ALL", "DISTINCT"]).map (" " ++ ·)).getD ""
      let right ← term below
      pure (some ⟨left.phrase ++ " " ++ operator ++ quantifier ++ " " ++ right.phrase, none⟩)
  chain step (← term below)

def commonTable : Reader Phrase := do
  let name ← ident
  let columns ← optionalColumnNames
  expectKeywords ["AS"]
  let inside ← parenthesized below.queryPhrase
  let source ← announced ["FROM"] ident
  pure (name.text ++ columnsText columns ++ " AS (" ++ inside ++ ")" ++
    (source.map fun name => " FROM " ++ name.text).getD "")

def commonTables : Reader Phrase := do
  if !(← keyword "WITH") then return {}
  let recursion := if ← keyword "RECURSIVE" then "RECURSIVE " else ""
  pure ("WITH " ++ recursion ++ Phrase.list (← commaSeparated (commonTable below)) ++ " ")

def offset : Reader Phrase := do
  let e ← below.phrase
  pure (e ++ ((← keywordOf ["ROW", "ROWS"]).map (" " ++ ·)).getD "")

-- How many rows are taken and how many are left out before. Both may be told in any order; without a bound the number
-- may be told again.
def bounds : Reader Phrase := do
  let limit := do pure (← announced ["LIMIT"] below.limit).join
  let offset := announced ["OFFSET"] (offset below)
  let round := fun (found : Option Phrase × Option Phrase) => do
    let first ← if found.1.isNone then limit else pure found.1
    let second ← if found.2.isNone then offset else pure found.2
    pure (first, second)
  let found ← round (← round (none, none))
  pure ((found.1.map fun (p : Phrase) => " LIMIT " ++ p).getD {} ++
    (found.2.map fun (p : Phrase) => " OFFSET " ++ p).getD {})

def fetch : Reader String := do
  if !(← keyword "FETCH") then return ""
  discard (expectKeywordOf ["FIRST", "NEXT"])
  let quantity ← if (← keywordOf ["ROW", "ROWS"]).isSome then pure ""
    else
      let quantity ← value
      let percent := if ← keyword "PERCENT" then " PERCENT" else ""
      discard (expectKeywordOf ["ROW", "ROWS"])
      pure (quantity ++ percent ++ " ")
  let ties ← if ← keyword "ONLY" then pure "ONLY"
    else
      expectKeywords ["WITH", "TIES"]
      pure "WITH TIES"
  pure (" FETCH FIRST " ++ quantity ++ "ROWS " ++ ties)

def lock : Reader (Option String) :=
  announced ["FOR"] do
    let mode ← expectKeywordOf ["UPDATE", "SHARE"]
    let tables ← announced ["OF"] qualifiedName
    let wait ← if ← keyword "NOWAIT" then pure " NOWAIT"
      else if ← keywords ["SKIP", "LOCKED"] then pure " SKIP LOCKED" else pure ""
    pure (" FOR " ++ mode ++ (tables.map fun name => " OF " ++ nameText name).getD "" ++ wait)

-- A query. A statement that inserts or updates rows may stand for one.
def query : Reader (Meaning (Option Select)) := do
  let named ← commonTables below
  if ← keyword "INSERT" then pure ⟨named ++ (← insert below), none⟩
  else if ← keyword "UPDATE" then pure ⟨named ++ (← update below), none⟩
  else
    let body ← terms below
    let keys ← below.sorting
    let bounds ← bounds below
    let fetched ← fetch
    let locks ← many lock
    pure ⟨named ++ body.phrase ++ keys ++ bounds ++ fetched ++ String.join locks, body.value⟩

end Subplans.Sql
