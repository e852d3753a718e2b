import Subplans.Sql.Interval

/-!
Calls of functions in SQL text.

A call is written out with its arguments, the keys that these are sorted by, and the window that the function is
computed over.
-/

namespace Subplans.Sql.Expression

open Reader Level

variable (below : Level) (part : Extent → Reader Expr)

def wildcardOr (other : Reader Phrase) : Reader Phrase := do
  let starred := do
    let names ← many do
      if ← symbol "*" then pure none
      else
        let name ← word
        expect "."
        pure (some name.text)
    pure (".".intercalate (names ++ ["*"]))
  match ← attempt starred with
  | some text => pure text
  | none => other

def argument : Reader Phrase := do
  let value := wildcardOr below.phrase
  let named := do
    let name ← ident
    expect "=>"
    pure name
  match ← attempt named with
  | some name => pure (name.text ++ " => " ++ (← value))
  | none => value

-- The arguments of a function and the keys that they are sorted by, up to the closing parenthesis.
def sortedArguments : Reader (Phrase × Phrase) := do
  if ← symbol ")" then return ({}, {})
  let arguments ← commaSeparated (argument below)
  let keys ← below.sorting
  expect ")"
  pure (Phrase.list arguments, keys)

-- Whether equal rows are taken once, and then which columns they have to be equal in.
def distinctness : Reader (Option Phrase) := do
  let all ← keyword "ALL"
  if ← keyword "DISTINCT" then
    require (!all)
    if ← keyword "ON" then
      let columns ← parenthesizedItems below.phrase
      pure (some ("DISTINCT ON (" ++ Phrase.list columns ++ ")"))
    else pure (some "DISTINCT")
  else pure none

-- Whether equal arguments are taken once; in which columns they are equal is not written out.
def argumentDistinctness : Reader String := do
  pure (if (← distinctness below).isSome then "DISTINCT " else "")

-- An end of the frame of a window. A text for its distance is the length of an interval.
def frameBound : Reader Phrase := do
  if ← keywords ["CURRENT", "ROW"] then return "CURRENT ROW"
  let distance : Phrase ← if ← keyword "UNBOUNDED" then pure "UNBOUNDED"
    else match ← peek with
      | some (.literal (.plain _)) => interval part
      | _ => below.phrase
  pure (distance ++ " " ++ (← expectKeywordOf ["PRECEDING", "FOLLOWING"]))

def frame : Reader Phrase := do
  let units ← expectKeywordOf ["ROWS", "RANGE", "GROUPS"]
  if ← keyword "BETWEEN" then
    let first ← frameBound below part
    expectKeywords ["AND"]
    pure (units ++ " BETWEEN " ++ first ++ " AND " ++ (← frameBound below part))
  else pure (units ++ " " ++ (← frameBound below part))

def windowSpecification : Reader Phrase :=
  parenthesized do
    let partition ← announced ["PARTITION", "BY"] below.phrases
    let keys ← announced ["ORDER", "BY"] below.sortKeys
    let rows ← if ← isSymbolAhead ")" then pure none else some <$> frame below part
    let pieces := [partition.map fun (p : Phrase) => "PARTITION BY " ++ p,
      keys.map fun (p : Phrase) => "ORDER BY " ++ p, rows]
    pure ("(" ++ Phrase.join " " (pieces.filterMap id) ++ ")")

def window : Reader Phrase := do
  if !(← keyword "OVER") then return {}
  if ← isSymbolAhead "(" then pure (" OVER " ++ (← windowSpecification below part))
  else pure (" OVER " ++ (← ident).text)

-- The call of a function, after its name. In the order of its parts the window comes before the sort keys.
def call (name : String) : Reader Phrase := do
  expect "("
  let distinct ← argumentDistinctness below
  let (arguments, keys) ← sortedArguments below
  let window ← window below part
  pure {
    text := name ++ "(" ++ distinct ++ arguments.text ++ keys.text ++ ")" ++ window.text
    parts := arguments.parts ++ window.parts ++ keys.parts
  }

-- The call of a function of the present time, after its name. The parentheses may be left out.
def timeCall (name : String) : Reader Phrase := do
  let (arguments, keys) ← if ← symbol "(" then sortedArguments below else pure ({}, {})
  pure (name ++ "(" ++ arguments ++ keys ++ ")")

def overflow : Reader Phrase := do
  if !(← keywords ["ON", "OVERFLOW"]) then return {}
  if ← keyword "ERROR" then return " ON OVERFLOW ERROR"
  expectKeywords ["TRUNCATE"]
  let filler ← match ← peek with
    | some (.literal l) =>
      require (!(l matches .dollar ..))
      some <$> below.phrase
    | _ => pure none
  let count ← expectKeywordOf ["WITH", "WITHOUT"]
  expectKeywords ["COUNT"]
  pure (" ON OVERFLOW TRUNCATE" ++ Phrase.spaced filler ++ " " ++ count ++ " COUNT")

def textList : Reader Phrase := do
  let inside ← parenthesized do
    let distinct ← argumentDistinctness below
    let e ← below.phrase
    let separator ← if ← symbol "," then pure (", " ++ (← below.phrase)) else pure {}
    pure (distinct ++ e ++ separator ++ (← overflow below))
  let order ← if ← keywords ["WITHIN", "GROUP"] then
      let keys ← parenthesized do
        expectKeywords ["ORDER", "BY"]
        below.sortKeys
      pure (" WITHIN GROUP (ORDER BY " ++ keys ++ ")")
    else pure {}
  pure ("LISTAGG(" ++ inside ++ ")" ++ order)

def arrayList : Reader Phrase :=
  parenthesized do
    let distinct := if ← keyword "DISTINCT" then "DISTINCT " else ""
    let e ← below.phrase
    let keys ← below.sorting
    let bound ← if ← keyword "LIMIT" then below.limit else pure none
    pure ("ARRAY_AGG(" ++ distinct ++ e ++ keys ++ (bound.map fun (p : Phrase) => " LIMIT " ++ p).getD {} ++ ")")

end Subplans.Sql.Expression
