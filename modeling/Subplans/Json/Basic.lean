import Subplans.Number.Layout
import Subplans.Number.Reader

/-!
JSON values.

A tree keeps its numbers as they are written and its objects with every field in order, so that
readers of records decide themselves what a number or a repeated field means to them. `Json.float?`
and `Json.integer?` say which number a lexeme denotes.
-/

namespace Subplans

-- A JSON value. A text is `none` if its escapes denote none: half of a surrogate pair stands alone in it.
inductive Json
  | null
  | bool (value : Bool)
  | number (lexeme : String)
  | string (text : Option String)
  | array (items : List Json)
  | object (fields : List (Option String × Json))
deriving Repr, Inhabited

namespace Json

def ofString (s : String) : Json :=
  string (some s)

def ofNat (n : Nat) : Json :=
  number (toString n)

-- A number; JSON has none for infinities and for what is no number, and `null` stands for them.
def ofFloat (x : Float) : Json :=
  if x.isFinite then number (Number.Layout.record.write x) else null

def ofFields (fields : List (String × Json)) : Json :=
  object (fields.map fun (name, value) => (some name, value))

-- The number a lexeme denotes: an integer of 64 bits, with or without sign, or else a double.
inductive Numeric
  | integer (n : Int)
  | double (x : Float)

namespace Numeric

-- The largest value of the significand while it is collected.
def largest : Nat := Nat.pow 2 64 - 1

-- Collects the digits before the point. From the first digit on that does not fit, each counts as a factor of ten only.
def collectWhole : (significand exponent : Nat) → List Nat → Nat × Nat
  | significand, exponent, [] => (significand, exponent)
  | significand, 0, d :: rest =>
    if 10 * significand + d ≤ largest then collectWhole (10 * significand + d) 0 rest
    else collectWhole significand 1 rest
  | significand, exponent + 1, _ :: rest => collectWhole significand (exponent + 2) rest

-- Collects the digits after the point, up to the first that does not fit.
def collectFraction : (significand : Nat) → (exponent : Int) → List Nat → Nat × Int
  | significand, exponent, [] => (significand, exponent)
  | significand, exponent, d :: rest =>
    if 10 * significand + d ≤ largest then collectFraction (10 * significand + d) (exponent - 1) rest
    else (significand, exponent)

def power (n : Nat) : Float :=
  (Number.ofDecimal false 1 n).toFloat

-- `x * 10 ^ exponent` with one rounding for each factor of at most `10 ^ 308`; none if it is too large.
def scale? (x : Float) (exponent : Int) : Option Float :=
  if exponent.natAbs ≤ 308 then
    if 0 ≤ exponent then
      let y := x * power exponent.toNat
      if y.isInf then none else some y
    else some (x / power exponent.natAbs)
  else if x == 0.0 then some x
  else if 0 ≤ exponent then none
  else scale? (x / power 308) (exponent + 308)
termination_by exponent.natAbs

def double? (negative : Bool) (significand : Nat) (exponent : Int) : Option Numeric :=
  (scale? (UInt64.ofNat significand).toFloat exponent).map fun x => double (if negative then -x else x)

def ofLexeme? (lexeme : String) : Option Numeric := do
  let (negative, text) := match lexeme.toList with
    | '-' :: rest => (true, rest)
    | text => (false, text)
  let (whole, text) := Number.digitRun text
  let (significand, extra) := collectWhole 0 0 whole
  match text with
  | [] =>
    if 0 < extra then double? negative significand extra
    else if !negative then some (integer significand)
    else if 0 < significand && significand ≤ Nat.pow 2 63 then some (integer (-(significand : Int)))
    -- What is left is the negative zero and what lies below the integers of 64 bits.
    else some (double (-(UInt64.ofNat significand).toFloat))
  | _ =>
    let ((significand, exponent), text) := match text with
      | '.' :: rest =>
        let (fraction, rest) := Number.digitRun rest
        (collectFraction significand extra fraction, rest)
      | _ => ((significand, (extra : Int)), text)
    let shift ← Number.readExponent? text
    if Nat.pow 2 31 ≤ shift.natAbs then
      if 0 < significand && 0 < shift then none
      else some (double (if negative then -0.0 else 0.0))
    else double? negative significand (exponent + shift)

end Numeric

def string? : Json → Option String
  | string text => text
  | _ => none

def bool? : Json → Option Bool
  | bool value => some value
  | _ => none

def array? : Json → Option (List Json)
  | array items => some items
  | _ => none

def float? : Json → Option Float
  | number lexeme => (Numeric.ofLexeme? lexeme).map fun
    | .integer n => if n < 0 then -(UInt64.ofNat n.natAbs).toFloat else (UInt64.ofNat n.natAbs).toFloat
    | .double x => x
  | _ => none

def integer? (least greatest : Int) : Json → Option Int
  | number lexeme =>
    match Numeric.ofLexeme? lexeme with
    | some (.integer n) => if least ≤ n && n ≤ greatest then some n else none
    | _ => none
  | _ => none

def nat? (bound : Nat) (value : Json) : Option Nat :=
  (integer? 0 (bound - 1 : Int) value).map Int.toNat

def list? {α : Type} (read : Json → Option α) (value : Json) : Option (List α) := do
  (← value.array?).mapM read

def nullable? {α : Type} (read : Json → Option α) : Json → Option (Option α)
  | null => some none
  | value => (read value).map some

end Json

end Subplans
