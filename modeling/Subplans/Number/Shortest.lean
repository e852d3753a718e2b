import Subplans.Number.Binary

/-!
The shortest decimal that reads back.

A double stands for all real numbers that round to it. `shortest` finds, among the decimals in that
interval, those with the fewest digits, and of these the one nearest to the double: for 1, 2, … 17
digits it tests the two neighbours of the value on the grid of decimals with that many digits.
-/

namespace Subplans.Number

-- An interval around a value, all three over one denominator; `closed` says whether its ends belong to it.
structure Interval where
  low : Nat
  value : Nat
  high : Nat
  den : Nat
  closed : Bool
deriving Repr

namespace Interval

-- The reals that round to `mantissa * 2 ^ exponent`: up to half-way to the next doubles, the ends included when the
-- mantissa is even. Below a power of two the doubles are twice as dense.
def around (mantissa : Nat) (exponent : Int) : Interval :=
  let below := if mantissa == Nat.pow 2 52 && -1074 < exponent then 1 else 2
  let (num, den) := if 2 ≤ exponent then (Nat.pow 2 (exponent - 2).toNat, 1) else (1, Nat.pow 2 (2 - exponent).toNat)
  { low := (4 * mantissa - below) * num
    value := 4 * mantissa * num
    high := (4 * mantissa + 2) * num
    den
    closed := mantissa % 2 == 0 }

def holds (i : Interval) (n : Nat) (e : Int) : Bool :=
  let (left, right) := if 0 ≤ e then (n * Nat.pow 10 e.toNat * i.den, 1) else (n * i.den, Nat.pow 10 (-e).toNat)
  if i.closed then i.low * right ≤ left && left ≤ i.high * right
  else i.low * right < left && left < i.high * right

-- The power of ten just above the value: `10 ^ (p - 1) ≤ value < 10 ^ p`.
def magnitude (i : Interval) : Int :=
  if i.den ≤ i.value then (Nat.toDigits 10 (i.value / i.den)).length
  else 1 - (Nat.toDigits 10 ((i.den + i.value - 1) / i.value - 1)).length

-- The decimal with `count` digits in the interval that is nearest to the value, if there is one.
def onGrid (tie : Tie) (i : Interval) (count : Nat) : Option Decimal :=
  let p := i.magnitude
  let e := p - count
  let (num, den) := if 0 ≤ e then (i.value, i.den * Nat.pow 10 e.toNat) else (i.value * Nat.pow 10 (-e).toNat, i.den)
  -- The value lies between `floor` and the next number of the grid; `near` is the closer of the two.
  let floor := num / den
  let near := roundDiv tie num den
  let far := if near == floor then floor + 1 else floor
  let decimal := fun n => { digits := strip (digitsOf n), point := e + (digitsOf n).length : Decimal }
  if i.holds near e then some (decimal near)
  else if i.holds far e then some (decimal far)
  else none
where
  strip (digits : List Nat) : List Nat := (digits.reverse.dropWhile (· == 0)).reverse

end Interval

-- The fewest digits that read back as `mantissa * 2 ^ exponent`, for a positive mantissa.
def shortest (tie : Tie) (mantissa : Nat) (exponent : Int) : Decimal :=
  let i := Interval.around mantissa exponent
  ((List.range' 1 17).findSome? (i.onGrid tie)).getD ⟨[], 0⟩

end Subplans.Number
