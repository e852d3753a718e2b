import Subplans.Sql.Form

/-!
Operands of SQL expressions.

An operand is what operators stand between: a constant, a column, a call, a form with keywords, or an expression in
parentheses. `part` reads an expression that stands in this one without being nested deeper.
-/

namespace Subplans.Sql.Expression

open Reader Level

variable (below : Level) (part : Extent → Reader Expr)

def constant (text : String) : Expr :=
  .other text []

-- What starts with a name that is no known form: a column or a call, or a text in a character set.
def named (first : Ident) : Reader Expr := do
  match ← peek with
  | some (.literal l) =>
    let isText := l matches .plain _ | .hexadecimal _
    if isText && first.name.toList.head? == some '_' then
      let _ ← next
      pure (constant (first.name ++ " " ++ l.text))
    else pure (.column [first])
  | _ =>
    let rest ← many do
      if ← symbol "." then some <$> word else pure none
    if ← isSymbolAhead "(" then
      pure (← call below part (nameText (first :: rest))).toExpr
    else pure (.column (first :: rest))

def arrayOrNamed (first : Ident) : Reader Expr := do
  if ← symbol "[" then pure (Phrase.toExpr ("ARRAY" ++ (← arrayItems below)))
  else if ← isSymbolAhead "(" then
    pure (Phrase.toExpr ("ARRAY(" ++ (← parenthesized below.queryPhrase) ++ ")"))
  else named below part first

def negation : Reader Expr := do
  if ← keyword "EXISTS" then pure (Phrase.toExpr ("NOT " ++ (← existence below)))
  else pure (Phrase.toExpr ("NOT " ++ Phrase.ofExpr (← part (.tighter notStrength))))

def wordOperand (first : Ident) (capitals : String) : Reader Expr :=
  match capitals with
  | "TRUE" => pure (constant "true")
  | "FALSE" => pure (constant "false")
  | "NULL" => pure (constant "NULL")
  | "CURRENT_CATALOG" | "CURRENT_USER" | "SESSION_USER" | "USER" => pure (constant first.text)
  | "CURRENT_TIMESTAMP" | "CURRENT_TIME" | "CURRENT_DATE" | "LOCALTIME" | "LOCALTIMESTAMP" =>
    Phrase.toExpr <$> timeCall below first.text
  | "CASE" => Phrase.toExpr <$> choice below
  | "CAST" | "TRY_CAST" | "SAFE_CAST" => Phrase.toExpr <$> cast below capitals
  | "EXISTS" => Phrase.toExpr <$> existence below
  | "EXTRACT" => Phrase.toExpr <$> extraction below
  | "CEIL" | "FLOOR" => Phrase.toExpr <$> rounding below capitals
  | "POSITION" => Phrase.toExpr <$> position below part
  | "SUBSTRING" => Phrase.toExpr <$> substring below
  | "OVERLAY" => Phrase.toExpr <$> overlay below
  | "TRIM" => Phrase.toExpr <$> trim below
  | "INTERVAL" => Phrase.toExpr <$> interval part
  | "LISTAGG" => Phrase.toExpr <$> textList below
  | "ARRAY_AGG" => Phrase.toExpr <$> arrayList below
  | "ARRAY" => arrayOrNamed below part first
  | "NOT" => negation below part
  | _ => named below part first

-- What follows an opening parenthesis: a query, an expression or several. A field of it may be taken.
def group : Reader Expr := do
  let e ← if ← isQueryAhead then
      pure (Phrase.toExpr ("(" ++ (← below.queryPhrase) ++ ")"))
    else
      match ← commaSeparated below.expression with
      | [e] => pure (.nested e)
      | es => pure (Phrase.toExpr ("(" ++ Phrase.list (es.map Phrase.ofExpr) ++ ")"))
  expect ")"
  if ← symbol "." then pure (Phrase.toExpr (Phrase.ofExpr e ++ "." ++ (← word).text)) else pure e

def symbolOperand (symbol : String) : Reader Expr :=
  let signed := fun (strength : Nat) => do
    pure (Phrase.toExpr (symbol ++ Phrase.ofExpr (← part (.tighter strength))))
  match symbol with
  | "(" => group below
  | "[" => Phrase.toExpr <$> arrayItems below
  | ":" => do pure (constant (":" ++ (← ident).name))
  | "-" | "+" => signed signStrength
  | "!!" | "|/" | "||/" | "@" | "~" => signed symbolStrength
  | _ => failure

def typedLiteral : Reader Expr := do
  let type ← TypeName.reader
  match type.form with
  | .known => pure (constant (type.text ++ " " ++ quotedText (← literalText)))
  | .interval => Phrase.toExpr <$> interval part
  | .custom => failure

-- An operand that does not start with the name of a type.
def untypedOperand : Reader Expr := do
  match ← next with
  | .word first capitals => wordOperand below part first capitals
  | .number digits long => pure (constant (Token.numberText digits long))
  | .literal l => pure (constant l.text)
  | .placeholder text => pure (constant text)
  | .symbol s => symbolOperand below part s

-- An operand, perhaps with the collation after it. A literal after the name of a type has none.
def operand : Reader Expr := do
  if let some e ← attempt (typedLiteral part) then return e
  let e ← untypedOperand below part
  match ← announced ["COLLATE"] qualifiedName with
  | some collation => pure (Phrase.toExpr (Phrase.ofExpr e ++ " COLLATE " ++ nameText collation))
  | none => pure e

end Subplans.Sql.Expression
