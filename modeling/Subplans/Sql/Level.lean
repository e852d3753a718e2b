import Subplans.Sql.Expr
import Subplans.Sql.Reader

/-!
What statements mean, and how deep they may be nested.

Of a SELECT the tables and the condition are kept. What may stand inside of a statement is given by `Level`: the
readers for what is nested one level deeper. `Sql.level` ties them together, for as many levels as there may be.
-/

namespace Subplans.Sql

open Reader

inductive Source
  | table (name : List Ident) (aliasName : Option Ident)
  | joins
  | other
deriving Repr

inductive JoinKind
  | cross
  | inner (condition : Expr)
  -- A join that keeps other rows, too, or whose columns are not named by a condition.
  | other
deriving Repr

structure FromItem where
  source : Source
  joins : List (JoinKind × Source)
deriving Repr

structure Select where
  items : List FromItem
  condition : Option Expr
deriving Repr

inductive Statement
  | select (s : Select)
  | explanation
  | other
deriving Repr

structure Meaning (α : Type) where
  phrase : Phrase
  value : α

-- Readers for what is nested in a statement. Each of them is one level deeper than what it stands in.
structure Level where
  expression : Reader Expr
  query : Reader (Meaning (Option Select))
  statement : Reader Statement

-- How far an expression reaches, and so what else may stand inside of one without being nested.
inductive Extent
  | tighter (outer : Nat)
  | duration
deriving DecidableEq, Repr

namespace Level

variable (below : Level)

def phrase : Reader Phrase := do
  pure (Phrase.ofExpr (← below.expression))

def phrases : Reader Phrase := do
  pure (Phrase.list (← commaSeparated below.phrase))

def queryPhrase : Reader Phrase := do
  pure (← below.query).phrase

def clause (words : List String) (inside : Reader Phrase) : Reader Phrase := do
  match ← announced words inside with
  | some p => pure (" " ++ " ".intercalate words ++ " " ++ p)
  | none => pure {}

def sortKey : Reader Phrase := do
  let e ← below.phrase
  let direction := ((← keywordOf ["ASC", "DESC"]).map (" " ++ ·)).getD ""
  let nulls ← if ← keywords ["NULLS", "FIRST"] then pure " NULLS FIRST"
    else if ← keywords ["NULLS", "LAST"] then pure " NULLS LAST" else pure ""
  pure (e ++ direction ++ nulls)

def sortKeys : Reader Phrase := do
  pure (Phrase.list (← commaSeparated below.sortKey))

def sorting : Reader Phrase :=
  clause ["ORDER", "BY"] below.sortKeys

def limit : Reader (Option Phrase) := do
  if ← keyword "ALL" then pure none else some <$> below.phrase

def isQueryAhead : Reader Bool :=
  isAhead ["SELECT", "WITH"]

end Level

end Subplans.Sql
