import Subplans.Sql.Operand

/-!
Operators of SQL expressions, and the expressions that they make.

Some operators are symbols and some are words; those that are words may have further words after them. Most take an
expression on their right that binds more tightly than they do.
-/

namespace Subplans.Sql.Expression

open Reader Level

variable (below : Level) (part : Extent → Reader Expr)

def rightSide (strength : Nat) : Reader Expr := do
  match ← keywordOf ["ANY", "ALL"] with
  | some word =>
    let inside ← parenthesized (part (.tighter strength))
    pure (Phrase.toExpr (word ++ "(" ++ Phrase.ofExpr inside ++ ")"))
  | none => part (.tighter strength)

-- An operator by its name in parentheses, after the word that announces it. Any token may be a part of the name.
def operatorName : Reader String := do
  let names ← parenthesized (separated "." next)
  pure ("OPERATOR(" ++ ".".intercalate (names.map Token.text) ++ ")")

def index : Reader Phrase := do
  let e ← below.phrase
  expect "]"
  pure ("[" ++ e ++ "]")

def symbolOperation (strength : Nat) (left : Expr) (symbol : String) : Reader Expr := do
  let onLeft := Phrase.ofExpr left
  match symbol with
  | "::" => pure (Phrase.toExpr ("CAST(" ++ onLeft ++ " AS " ++ (← TypeName.reader).text ++ ")"))
  | "!" => pure (Phrase.toExpr (onLeft ++ "!"))
  | "[" => pure (Phrase.toExpr (onLeft ++ (← index below)))
  | ":" => pure (Phrase.toExpr (onLeft ++ ":" ++ (← value)))
  | _ =>
    if strength == accessStrength then
      pure (Phrase.toExpr (onLeft ++ " " ++ symbol ++ " " ++ (← below.phrase)))
    else pure (.binary left symbol (← rightSide part strength))

def test (left : Expr) : Reader Expr := do
  let negation := if ← keyword "NOT" then "NOT " else ""
  let onLeft := Phrase.ofExpr left ++ " IS " ++ negation
  match ← keywordOf ["NULL", "TRUE", "FALSE", "UNKNOWN"] with
  | some word => pure (Phrase.toExpr (onLeft ++ word))
  | none =>
    expectKeywords ["DISTINCT", "FROM"]
    pure (Phrase.toExpr (onLeft ++ "DISTINCT FROM " ++ (← below.phrase)))

def pattern (left : Expr) (words : String) : Reader Expr := do
  let right ← part (.tighter patternStrength)
  let escape ← announced ["ESCAPE"] literalCharacter
  pure (Phrase.toExpr (Phrase.ofExpr left ++ " " ++ words ++ " " ++ Phrase.ofExpr right ++
    (escape.map fun c => " ESCAPE '" ++ c ++ "'").getD ""))

def collection : Reader Phrase := do
  if ← keyword "UNNEST" then pure ("UNNEST(" ++ (← parenthesized below.phrase) ++ ")")
  else
    let inside ← parenthesized do
      if ← isQueryAhead then below.queryPhrase else below.phrases
    pure ("(" ++ inside ++ ")")

def predicate (left : Expr) : Reader Expr := do
  let negated ← keyword "NOT"
  let negation := if negated then "NOT " else ""
  match ← keywordOf ["IN", "BETWEEN", "LIKE", "ILIKE", "SIMILAR"] with
  | some "IN" => pure (Phrase.toExpr (Phrase.ofExpr left ++ " " ++ negation ++ "IN " ++ (← collection below)))
  | some "BETWEEN" =>
    let low ← part (.tighter rangeStrength)
    expectKeywords ["AND"]
    pure (.between negated left low (← part (.tighter rangeStrength)))
  | some "SIMILAR" =>
    expectKeywords ["TO"]
    pattern part left (negation ++ "SIMILAR TO")
  | some word => pattern part left (negation ++ word)
  | none => failure

def wordOperation (strength : Nat) (left : Expr) : Reader Expr := do
  match ← keywordOf ["AND", "OR", "XOR", "OPERATOR", "IS", "AT"] with
  | some "OPERATOR" =>
    let name ← operatorName
    pure (.binary left name (← rightSide part strength))
  | some "IS" => test below left
  | some "AT" =>
    expectKeywords ["TIME", "ZONE"]
    pure (Phrase.toExpr (Phrase.ofExpr left ++ " AT TIME ZONE '" ++ (← plainText) ++ "'"))
  | some word => pure (.binary left word (← rightSide part strength))
  | none => predicate below part left

-- The operation that comes next after an operand, if the expression reaches over its operator.
def operation (extent : Extent) (left : Expr) : Reader (Option Expr) := fun tokens =>
  let strength := strengthWithin extent tokens
  if strength == 0 then some (none, tokens)
  else
    let operation := match tokens with
      | .symbol s :: _ => next *> symbolOperation below part strength left s
      | _ => wordOperation below part strength left
    (some <$> operation) tokens

/-!
### Expressions

An expression is an operand with the operations after it. Operands that start inside of it are read the same way
and are no deeper nested, as the signs and words before an operand show; each of them starts after some token of
the expression, so that the tokens bound how many there are.
-/

-- An expression that reaches as far as `extent` says. `room` bounds how many operands may start inside each other.
def within (below : Level) : (room : Nat) → (extent : Extent) → Reader Expr
  | 0, _ => failure
  | room + 1, extent => do
    let first ← operand below (within below room)
    chain (operation below (within below room) extent) first

-- An expression that reaches as far as `extent` says and stands in nothing else.
def reaching (below : Level) (extent : Extent) : Reader Expr := fun tokens =>
  within below (tokens.length + 1) extent tokens

def reader (below : Level) : Reader Expr :=
  reaching below (.tighter 0)

end Subplans.Sql.Expression
