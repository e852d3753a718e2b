import Subplans.Sql.Call
import Subplans.Sql.Strength

/-!
Forms of SQL expressions that have keywords inside.

Choices, type conversions and the calls whose arguments have words between them. Each is read after the word that
announces it.
-/

namespace Subplans.Sql.Expression

open Reader Level

variable (below : Level) (part : Extent → Reader Expr)

def branch : Reader (Expr × Expr) := do
  let condition ← below.expression
  expectKeywords ["THEN"]
  pure (condition, ← below.expression)

-- A choice. All its conditions come before its results in the order of its parts.
def choice : Reader Phrase := do
  let operand ← if ← keyword "WHEN" then pure none
    else
      let e ← below.expression
      expectKeywords ["WHEN"]
      pure (some e)
  let first ← branch below
  let rest ← many (announced ["WHEN"] (branch below))
  let otherwise ← announced ["ELSE"] below.expression
  expectKeywords ["END"]
  let branches := first :: rest
  let written := fun (word : String) (e : Option Expr) => (e.map fun e => " " ++ word ++ e.text).getD ""
  pure {
    text := "CASE" ++ written "" operand ++
      String.join (branches.map fun (c, r) => " WHEN " ++ c.text ++ " THEN " ++ r.text) ++
      written "ELSE " otherwise ++ " END"
    parts := operand.toList ++ branches.map Prod.fst ++ branches.map Prod.snd ++ otherwise.toList
  }

def cast (name : String) : Reader Phrase :=
  parenthesized do
    let e ← below.phrase
    expectKeywords ["AS"]
    pure (name ++ "(" ++ e ++ " AS " ++ (← TypeName.reader).text ++ ")")

def existence : Reader Phrase := do
  pure ("EXISTS (" ++ (← parenthesized below.queryPhrase) ++ ")")

def extraction : Reader Phrase :=
  parenthesized do
    let field ← timeField
    expectKeywords ["FROM"]
    pure ("EXTRACT(" ++ field ++ " FROM " ++ (← below.phrase) ++ ")")

def rounding (name : String) : Reader Phrase :=
  parenthesized do
    let e ← below.phrase
    let field ← announced ["TO"] timeField
    pure (name ++ "(" ++ e ++ (field.map (" TO " ++ ·)).getD "" ++ ")")

def position : Reader Phrase :=
  parenthesized do
    let e ← part (.tighter rangeStrength)
    expectKeywords ["IN"]
    pure ("POSITION(" ++ Phrase.ofExpr e ++ " IN " ++ (← below.phrase) ++ ")")

-- A part of a text. Commas may stand for the words before its bounds.
def substring : Reader Phrase :=
  parenthesized do
    let bound := fun (word : String) => do
      if (← keyword word) || (← symbol ",") then pure (" " ++ word ++ " " ++ (← below.phrase)) else pure {}
    let e ← below.phrase
    let start ← bound "FROM"
    pure ("SUBSTRING(" ++ e ++ start ++ (← bound "FOR") ++ ")")

def overlay : Reader Phrase :=
  parenthesized do
    let e ← below.phrase
    expectKeywords ["PLACING"]
    let replacement ← below.phrase
    expectKeywords ["FROM"]
    let start ← below.phrase
    let length ← clause ["FOR"] below.phrase
    pure ("OVERLAY(" ++ e ++ " PLACING " ++ replacement ++ " FROM " ++ start ++ length ++ ")")

-- A text without some characters at its ends. The text comes before the characters in the order of the parts.
def trim : Reader Phrase :=
  parenthesized do
    let side := ((← keywordOf ["BOTH", "LEADING", "TRAILING"]).map (· ++ " ")).getD ""
    let first ← below.expression
    match ← announced ["FROM"] below.expression with
    | none => pure ("TRIM(" ++ side ++ Phrase.ofExpr first ++ ")")
    | some text => pure ⟨"TRIM(" ++ side ++ first.text ++ " FROM " ++ text.text ++ ")", [text, first]⟩

def arrayItems : Reader Phrase := do
  if ← symbol "]" then return "[]"
  let items ← below.phrases
  expect "]"
  pure ("[" ++ items ++ "]")

end Subplans.Sql.Expression
