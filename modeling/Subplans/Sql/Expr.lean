import Subplans.Sql.Token

/-!
SQL expressions.

Of an expression those parts are told apart that say how tables are joined and restricted: columns,
parentheses, operators and ranges. Of any other form only its text and the expressions in it matter.
`Expr.text` writes an expression out in a uniform way, whatever it looked like before.
-/

namespace Subplans.Sql

def nameText (names : List Ident) : String :=
  ".".intercalate (names.map Ident.text)

inductive Expr
  | column (names : List Ident)
  | nested (inner : Expr)
  | binary (left : Expr) (symbol : String) (right : Expr)
  | between (negated : Bool) (operand low high : Expr)
  | other (text : String) (parts : List Expr)
deriving Repr, Inhabited

namespace Expr

def text : Expr → String
  | column names => nameText names
  | nested inner => "(" ++ inner.text ++ ")"
  | binary left symbol right => left.text ++ " " ++ symbol ++ " " ++ right.text
  | between negated operand low high =>
    operand.text ++ (if negated then " NOT BETWEEN " else " BETWEEN ") ++ low.text ++ " AND " ++ high.text
  | other text _ => text

mutual

def columns : Expr → List (List Ident)
  | column names => [names]
  | nested inner => inner.columns
  | binary left _ right => left.columns ++ right.columns
  | between _ operand low high => operand.columns ++ low.columns ++ high.columns
  | other _ parts => columnsAll parts

def columnsAll : List Expr → List (List Ident)
  | [] => []
  | e :: rest => e.columns ++ columnsAll rest

end

def bare : Expr → Expr
  | nested inner => inner.bare
  | e => e

-- The operands of the outermost ANDs. Those in one pair of parentheses count as well.
def conjuncts : Expr → List Expr
  | binary left "AND" right => left.conjuncts ++ right.conjuncts
  | nested (binary left "AND" right) => left.conjuncts ++ right.conjuncts
  | e => [e]

end Expr

structure Phrase where
  text : String := ""
  parts : List Expr := []

namespace Phrase

instance : Append Phrase where
  append p q := ⟨p.text ++ q.text, p.parts ++ q.parts⟩

instance : Coe String Phrase where
  coe text := ⟨text, []⟩

def ofExpr (e : Expr) : Phrase :=
  ⟨e.text, [e]⟩

def join (separator : String) : List Phrase → Phrase
  | [] => {}
  | [p] => p
  | p :: rest => p ++ separator ++ join separator rest

def list (pieces : List Phrase) : Phrase :=
  join ", " pieces

def toExpr (p : Phrase) : Expr :=
  .other p.text p.parts

def spaced (p : Option Phrase) : Phrase :=
  (p.map fun (p : Phrase) => " " ++ p).getD {}

end Phrase

end Subplans.Sql
