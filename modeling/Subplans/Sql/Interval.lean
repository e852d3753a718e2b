import Subplans.Sql.Level
import Subplans.Sql.TypeName

/-!
Intervals of time in SQL text.

An interval is an expression with the fields of a time that it is measured in.
-/

namespace Subplans.Sql.Expression

open Reader

def intervalFields : List String :=
  ["YEAR", "MONTH", "WEEK", "DAY", "HOUR", "MINUTE", "SECOND", "CENTURY", "DECADE", "DOW", "DOY", "EPOCH", "ISODOW",
    "ISOYEAR", "JULIAN", "MICROSECOND", "MICROSECONDS", "MILLENIUM", "MILLENNIUM", "MILLISECOND", "MILLISECONDS",
    "NANOSECOND", "NANOSECONDS", "QUARTER", "TIMEZONE", "TIMEZONE_HOUR", "TIMEZONE_MINUTE"]

def timeField : Reader String :=
  expectKeywordOf ("DATE" :: intervalFields)

def fieldPrecision : Reader String := do
  let size ← TypeName.size
  pure (if size.isEmpty then "" else " " ++ size)

-- The precision of seconds and perhaps that of their fractions.
def secondPrecision : Reader String := do
  let numbers := do
    let n ← wholeNumber
    if ← symbol "," then pure (toString n ++ ", " ++ toString (← wholeNumber)) else pure (toString n)
  let numbers ← TypeName.argument numbers
  pure (if numbers.isEmpty then "" else " " ++ numbers)

-- What stands after the length of an interval: the fields that it reaches from and to.
def intervalFieldRange : Reader String := do
  match ← keywordOf intervalFields with
  | some "SECOND" => pure (" SECOND" ++ (← secondPrecision))
  | field =>
    let first := (field.map (" " ++ ·)).getD "" ++ (← fieldPrecision)
    if ← keyword "TO" then
      let last ← timeField
      let fractions ← if last == "SECOND" then fieldPrecision else pure ""
      pure (first ++ " TO " ++ last ++ fractions)
    else pure first

def interval (part : Extent → Reader Expr) : Reader Phrase := do
  let length ← part .duration
  pure ("INTERVAL " ++ Phrase.ofExpr length ++ (← intervalFieldRange))

end Subplans.Sql.Expression
