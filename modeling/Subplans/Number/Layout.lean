import Subplans.Number.Shortest

/-!
How numbers are written.

A `Layout` holds the decisions of one written form: which numbers are written positionally, whether a
whole number keeps a fraction, how an exponent looks, and what stands for values that are no numbers.
The digits are always the fewest that read back.
-/

namespace Subplans.Number

structure Layout where
  -- Positions of the decimal point with which a number is written without an exponent.
  positional : Int → Bool
  -- A number without digits after the point gets a zero there.
  keepsFraction : Bool
  signsExponent : Bool
  -- Which of two equally near digit strings is taken.
  tie : Tie

namespace Layout

def literal : Layout where
  positional p := -4 < p && p ≤ 16
  keepsFraction := true
  signsExponent := false
  tie := .up

def plain : Layout where
  positional _ := true
  keepsFraction := false
  signsExponent := false
  tie := .up

def record : Layout where
  positional p := -5 < p && p ≤ 16
  keepsFraction := true
  signsExponent := true
  tie := .even

def table : Layout where
  positional p := -5 < p && p ≤ 16
  keepsFraction := true
  signsExponent := false
  tie := .even

-- The digits `digits` with the decimal point after the first `point` of them, filled with zeros where it lies outside.
def writePositional (l : Layout) (digits : List Nat) (point : Int) : String :=
  let text := fun ds => String.ofList (ds.map digitChar)
  if point ≤ 0 then
    "0." ++ text (List.replicate (-point).toNat 0 ++ digits)
  else
    let whole := digits.take point.toNat
    let fraction := digits.drop point.toNat
    let whole := whole ++ List.replicate (point.toNat - whole.length) 0
    if fraction.isEmpty then text whole ++ (if l.keepsFraction then ".0" else "")
    else text whole ++ "." ++ text fraction

-- The digits with a point after the first of them, and an exponent.
def writeScientific (l : Layout) (digits : List Nat) (point : Int) : String :=
  let text := fun ds => String.ofList (ds.map digitChar)
  let mantissa := match digits with
    | [] => ""
    | [d] => text [d]
    | d :: ds => text [d] ++ "." ++ text ds
  let e := point - 1
  mantissa ++ "e" ++ (if 0 ≤ e && l.signsExponent then "+" else "") ++ toString e

def write (l : Layout) (x : Float) : String :=
  match Binary.ofFloat x with
  | .nan => "NaN"
  | .infinite negative => if negative then "-inf" else "inf"
  | .finite negative mantissa exponent =>
    let sign := if negative then "-" else ""
    if mantissa == 0 then sign ++ (if l.keepsFraction then "0.0" else "0")
    else
      let d := shortest l.tie mantissa exponent
      sign ++ (if l.positional d.point then l.writePositional d.digits d.point
        else l.writeScientific d.digits d.point)

end Layout

-- A number with exactly `places` digits after the point: the exact value rounded, a half to the even neighbour.
def writeFixed (places : Nat) (x : Float) : String :=
  match Binary.ofFloat x with
  | .nan => "NaN"
  | .infinite negative => if negative then "-inf" else "inf"
  | .finite negative mantissa exponent =>
    let sign := if negative then "-" else ""
    let (num, den) := if 0 ≤ exponent then (mantissa * Nat.pow 2 exponent.toNat, 1)
      else (mantissa, Nat.pow 2 (-exponent).toNat)
    let units := roundDiv .even (num * Nat.pow 10 places) den
    let digits := digitsOf units
    let digits := List.replicate (places + 1 - digits.length) 0 ++ digits
    let text := fun ds => String.ofList (ds.map digitChar)
    let whole := digits.take (digits.length - places)
    if places == 0 then sign ++ text whole
    else sign ++ text whole ++ "." ++ text (digits.drop (digits.length - places))

end Subplans.Number
