import Subplans.Sql.Operator

/-!
What SQL text takes rows from: tables, and the joins between them.

A query in parentheses and joins in parentheses both stand for a table; which of the two it is shows only at the
end, so that a query is tried first.
-/

namespace Subplans.Sql

open Reader Level Expression

-- Words that are no alias unless AS stands before them.
def reservedWords : List String :=
  ["WITH", "EXPLAIN", "ANALYZE", "SELECT", "WHERE", "GROUP", "SORT", "HAVING", "ORDER", "TOP", "LATERAL", "VIEW",
    "LIMIT", "OFFSET", "FETCH", "UNION", "EXCEPT", "INTERSECT", "CLUSTER", "DISTRIBUTE", "END"]

-- Words that are no alias of a table unless AS stands before them.
def reservedForTables : List String :=
  reservedWords ++ ["PIVOT", "ON", "JOIN", "INNER", "CROSS", "FULL", "LEFT", "RIGHT", "NATURAL", "USING", "OUTER",
    "SET", "QUALIFY", "WINDOW"]

-- Words that are no alias of a column unless AS stands before them.
def reservedForColumns : List String :=
  reservedWords ++ ["FROM", "INTO"]

def aliasName (reserved : List String) : Reader (Option Ident) := do
  if ← keyword "AS" then some <$> ident
  else
    match ← peek with
    | some t =>
      if t.isKeywordOf reserved then pure none
      else match t with
        | .word .. | .literal (.plain _) => some <$> ident
        | _ => pure none
    | none => pure none

def namesText (names : List Ident) : String :=
  ", ".intercalate (names.map Ident.text)

def columnsText (names : List Ident) : String :=
  if names.isEmpty then "" else " (" ++ namesText names ++ ")"

def tableAlias : Reader (Meaning (Option Ident)) := do
  match ← aliasName reservedForTables with
  | none => pure ⟨{}, none⟩
  | some name => pure ⟨" AS " ++ name.text ++ columnsText (← optionalColumnNames), some name⟩

variable (below : Level)

def derivedTable : Reader Phrase := do
  let inside ← parenthesized below.queryPhrase
  pure ("(" ++ inside ++ ")" ++ (← tableAlias).phrase)

-- What turns the values of a column into columns, after the word that announces it.
def pivot : Reader Phrase := do
  let inside ← parenthesized do
    let aggregate ← call below (reaching below) (← word).name
    expectKeywords ["FOR"]
    let column ← qualifiedName
    expectKeywords ["IN"]
    let values ← parenthesized (commaSeparated value)
    pure (aggregate ++ " FOR " ++ nameText column ++ " IN (" ++ ", ".intercalate values ++ ")")
  pure (" PIVOT(" ++ inside ++ ")" ++ (← tableAlias).phrase)

def hints : Reader Phrase := do
  let opened ← attempt do
    expectKeywords ["WITH"]
    expect "("
  if opened.isNone then return {}
  let inside ← below.phrases
  expect ")"
  pure (" WITH (" ++ inside ++ ")")

def namedTable : Reader (Meaning Source) := do
  let name ← qualifiedName
  let arguments : Phrase ← if ← isSymbolAhead "(" then
      pure ("(" ++ Phrase.list (← parenthesizedItems (argument below)) ++ ")")
    else pure {}
  let named ← tableAlias
  if ← keyword "PIVOT" then
    pure ⟨nameText name ++ named.phrase ++ (← pivot below), .other⟩
  else
    pure ⟨nameText name ++ arguments ++ named.phrase ++ (← hints below), .table name named.value⟩

inductive JoinWords
  | unconditional (words : String) (kind : JoinKind)
  -- A condition may follow; the join keeps the rows that match and no others if it `isInner`.
  | conditional (natural : Bool) (words : String) (isInner : Bool)

-- The words of a join from the word on that says which side it keeps, if there is one.
def sidedJoinWords : Reader (Option (String × Bool)) := do
  if ← isAhead ["INNER", "JOIN"] then
    let _ ← keyword "INNER"
    expectKeywords ["JOIN"]
    pure (some ("JOIN", true))
  else if let some side ← keywordOf ["LEFT", "RIGHT"] then
    let variant ← keywordOf ["OUTER", "SEMI", "ANTI"]
    expectKeywords ["JOIN"]
    pure (some (match variant with
      | some "SEMI" => side ++ " SEMI JOIN"
      | some "ANTI" => side ++ " ANTI JOIN"
      | _ => side ++ " JOIN", false))
  else if ← keyword "FULL" then
    let _ ← keyword "OUTER"
    expectKeywords ["JOIN"]
    pure (some ("FULL JOIN", false))
  else pure none

def joinWords : Reader (Option JoinWords) := do
  if ← keyword "CROSS" then
    if ← keyword "APPLY" then pure (some (.unconditional "CROSS APPLY" .other))
    else
      expectKeywords ["JOIN"]
      pure (some (.unconditional "CROSS JOIN" .cross))
  else if ← keyword "OUTER" then
    expectKeywords ["APPLY"]
    pure (some (.unconditional "OUTER APPLY" .other))
  else
    let natural ← keyword "NATURAL"
    match ← sidedJoinWords with
    | some (words, isInner) => pure (some (.conditional natural words isInner))
    | none =>
      require !natural
      pure none

-- How it is told which rows match in a join that is not natural.
def joinCondition : Reader (Meaning JoinKind) := do
  if ← keyword "ON" then
    let condition ← below.expression
    pure ⟨" ON " ++ Phrase.ofExpr condition, .inner condition⟩
  else if ← keyword "USING" then
    pure ⟨" USING(" ++ namesText (← columnNames) ++ ")", .other⟩
  else pure ⟨{}, .cross⟩

def join (table : Reader (Meaning Source)) : Reader (Option (Meaning (JoinKind × Source))) := do
  match ← joinWords with
  | none => pure none
  | some (.unconditional words kind) =>
    let joined ← table
    pure (some ⟨" " ++ words ++ " " ++ joined.phrase, (kind, joined.value)⟩)
  | some (.conditional natural words isInner) =>
    let joined ← table
    let condition ← if natural then pure ⟨{}, .other⟩ else joinCondition below
    pure (some ⟨" " ++ (if natural then "NATURAL " else "") ++ words ++ " " ++ joined.phrase ++ condition.phrase,
      (if isInner then condition.value else .other, joined.value)⟩)

def joinsOf (table : Reader (Meaning Source)) : Reader (Meaning FromItem) := do
  let first ← table
  let joins ← many (join below table)
  pure ⟨first.phrase ++ Phrase.join "" (joins.map Meaning.phrase), ⟨first.value, joins.map Meaning.value⟩⟩

-- Something that rows are taken from. `room` bounds how deep joins may stand in parentheses. There have to be joins in
-- them, or further parentheses.
def tableWithin : (room : Nat) → Reader (Meaning Source)
  | 0 => failure
  | room + 1 => do
    if ← keyword "LATERAL" then pure ⟨"LATERAL " ++ (← derivedTable below), .other⟩
    else if ← keyword "TABLE" then
      let inside ← parenthesized below.phrase
      pure ⟨"TABLE(" ++ inside ++ ")" ++ (← tableAlias).phrase, .other⟩
    else if ← isSymbolAhead "(" then
      match ← attempt (derivedTable below) with
      | some query => pure ⟨query, .other⟩
      | none =>
        let inside ← parenthesized (joinsOf below (tableWithin room))
        require (!inside.value.joins.isEmpty || inside.value.source matches .joins)
        pure ⟨"(" ++ inside.phrase ++ ")" ++ (← tableAlias).phrase, .joins⟩
    else namedTable below

def table : Reader (Meaning Source) := fun tokens =>
  tableWithin below (tokens.length + 1) tokens

def fromItem : Reader (Meaning FromItem) :=
  joinsOf below (table below)

def fromItems : Reader (Meaning (List FromItem)) := do
  let items ← commaSeparated (fromItem below)
  pure ⟨Phrase.list (items.map Meaning.phrase), items.map Meaning.value⟩

end Subplans.Sql
