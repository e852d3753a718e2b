import Subplans.Sql.Level

/-!
How tightly the operators of SQL expressions bind.

Of two operators with an operand between them the one of greater strength takes it, and of two that are equally
strong the first one.
-/

namespace Subplans.Sql.Expression

open Reader

def notStrength : Nat := 15

def signStrength : Nat := 40

def symbolStrength : Nat := 30

def rangeStrength : Nat := 20

def patternStrength : Nat := 19

def accessStrength : Nat := 50

-- How tightly a symbol binds; zero if it is no operator.
def strengthOfSymbol (symbol : String) : Nat :=
  match symbol with
  | "=" | "<" | "<=" | "<>" | ">" | ">=" | "~" | "~*" | "!~" | "!~*" | "<=>" => 20
  | "|" => 21
  | "^" | "#" | "<<" | ">>" => 22
  | "&" => 23
  | "+" | "-" => 30
  | "*" | "/" | "%" | "||" => 40
  | "::" | ":" | "!" | "[" | "->" | "->>" | "#>" | "#>>" | "@>" | "<@" | "#-" | "@?" | "@@" => accessStrength
  | _ => 0

-- How tightly a word binds, which may depend on those after it; zero if it is no operator.
def strengthOfWord (word : String) (after : List Token) : Nat :=
  match word with
  | "OR" => 5
  | "AND" => 10
  | "IS" => 17
  | "LIKE" | "ILIKE" | "SIMILAR" => patternStrength
  | "IN" | "BETWEEN" | "OPERATOR" => rangeStrength
  | "NOT" =>
    if after.head?.any (Token.isKeywordOf ["IN", "BETWEEN"]) then rangeStrength
    else if after.head?.any (Token.isKeywordOf ["LIKE", "ILIKE", "SIMILAR"]) then patternStrength
    else 0
  | "AT" => if startsWith ["TIME", "ZONE"] after then 20 else 0
  | "XOR" => 24
  | "DIV" => 40
  | _ => 0

-- How tightly the operator binds that comes next; zero if none does.
def strength : List Token → Nat
  | .symbol s :: _ => strengthOfSymbol s
  | .word _ capitals :: after => strengthOfWord capitals after
  | _ => 0

-- How tightly the operator binds that comes next, if the expression reaches over it; else zero.
def strengthWithin (extent : Extent) (tokens : List Token) : Nat :=
  match extent with
  | .tighter outer => if strength tokens ≤ outer then 0 else strength tokens
  | .duration =>
    if tokens.head?.any (Token.isKeywordOf ["AND", "OR", "XOR"]) then 0 else strength tokens

end Subplans.Sql.Expression
