/-!
Floating-point numbers as exact values.

`Binary.ofFloat` takes a double apart into sign, mantissa and exponent, and `nearest` finds the
double closest to a quotient of natural numbers, the even one of two that are equally close. Reading
and writing of decimal numbers rest on these two and on exact arithmetic.
-/

namespace Subplans.Number

inductive Tie
  | up
  | even
deriving DecidableEq, Repr

def roundDiv (tie : Tie) (num den : Nat) : Nat :=
  let q := num / den
  let twice := 2 * (num % den)
  if twice < den then q
  else if den < twice then q + 1
  else match tie with
    | .up => q + 1
    | .even => q + q % 2

-- A double: not a number, an infinity, or `± mantissa * 2 ^ exponent`.
inductive Binary
  | nan
  | infinite (negative : Bool)
  | finite (negative : Bool) (mantissa : Nat) (exponent : Int)
deriving DecidableEq, Repr

namespace Binary

def ofFloat (x : Float) : Binary :=
  let bits : Nat := x.toBits.toNat
  let negative := bits / Nat.pow 2 63 == 1
  let biased : Nat := bits / Nat.pow 2 52 % Nat.pow 2 11
  let fraction : Nat := bits % Nat.pow 2 52
  if biased == 2047 then if fraction == 0 then infinite negative else nan
  else if biased == 0 then finite negative fraction (-1074)
  else finite negative (Nat.pow 2 52 + fraction) ((biased : Int) - 1075)

-- The double with this value; the mantissa is below `2 ^ 53`, and at least `2 ^ 52` unless the exponent is the least
-- one.
def toFloat : Binary → Float
  | nan => Float.ofBits 0x7FF8000000000000
  | infinite negative => sign negative 0x7FF0000000000000
  | finite negative mantissa exponent =>
    if mantissa < Nat.pow 2 52 then sign negative mantissa
    else sign negative ((exponent + 1075).toNat * Nat.pow 2 52 + (mantissa - Nat.pow 2 52))
where
  sign (negative : Bool) (magnitude : Nat) : Float :=
    Float.ofBits (UInt64.ofNat (if negative then Nat.pow 2 63 + magnitude else magnitude))

-- `num / (den * 2 ^ e)` as a quotient of natural numbers.
def scaled (num den : Nat) (e : Int) : Nat × Nat :=
  if 0 ≤ e then (num, den * Nat.pow 2 e.toNat) else (num * Nat.pow 2 (-e).toNat, den)

-- The least exponent with which `num / den` has a mantissa below `2 ^ 53`, not below that of the subnormal numbers.
def exponentFor (num den : Nat) : Int :=
  let guess : Int := (Nat.log2 num : Int) - Nat.log2 den - 53
  let fits := fun e => let (n, d) := scaled num den e; n < Nat.pow 2 53 * d
  max (-1074) (if fits guess then guess else if fits (guess + 1) then guess + 1 else guess + 2)

-- The double nearest to `num / den`; of two that are equally near, the even one. Values beyond the largest double
-- become infinite.
def nearest (negative : Bool) (num den : Nat) : Binary :=
  if num == 0 then finite negative 0 (-1074)
  else
    let e := exponentFor num den
    let (n, d) := scaled num den e
    let m := roundDiv .even n d
    let (m, e) := if m < Nat.pow 2 53 then (m, e) else (Nat.pow 2 52, e + 1)
    if 971 < e then infinite negative else finite negative m e

end Binary

structure Decimal where
  -- The significant digits, most significant first.
  digits : List Nat
  -- Where the decimal point stands, counted from the first digit: the value is `0.d₁d₂… * 10 ^ point`.
  point : Int
deriving DecidableEq, Repr

def digitsOf (n : Nat) : List Nat :=
  (Nat.toDigits 10 n).map fun c => c.toNat - '0'.toNat

def ofDigits (digits : List Nat) : Nat :=
  digits.foldl (fun n d => 10 * n + d) 0

def digitChar (d : Nat) : Char :=
  Char.ofNat ('0'.toNat + d)

end Subplans.Number
