import Subplans.Number.Binary
import Subplans.Text.Scan

/-!
Reading of numbers from text.

Integers are a sign, where one is allowed, and ASCII digits within a range; `IntegerError` tells why a
text is none. A decimal is digits with at most one point among them and an optional exponent, or one
of the words for infinity and for what is no number; it is read as the nearest double. Lists of integers may
hold ranges, as in `1-3,7`; that a range cannot end with the largest number is noticed where overflows are checked.
-/

namespace Subplans.Number

-- Why a text is no integer of the wanted range.
inductive IntegerError
  | empty
  | invalidDigit
  | overflow
deriving DecidableEq, Repr

def IntegerError.message : IntegerError → String
  | .empty => "cannot parse integer from empty string"
  | .invalidDigit => "invalid digit found in string"
  | .overflow => "number too large to fit in target type"

def digit? (c : Char) : Option Nat :=
  if c.isDigit then some (c.toNat - '0'.toNat) else none

-- The value of a run of ASCII digits below `bound`. The first fault from the left is told: a character that is no
-- digit, or the digit with which the value gets too large.
def readDigits (bound : Nat) : (value : Nat) → List Char → Except IntegerError Nat
  | value, [] => .ok value
  | value, c :: rest =>
    match digit? c with
    | none => .error .invalidDigit
    | some d => if 10 * value + d < bound then readDigits bound (10 * value + d) rest
      else .error .overflow

-- A natural number below `bound`, with an optional plus sign.
def readNat (bound : Nat) (text : List Char) : Except IntegerError Nat :=
  match text with
  | [] => .error .empty
  | ['+'] => .error .invalidDigit
  | '+' :: rest => readDigits bound 0 rest
  | _ => readDigits bound 0 text

def readInt (text : List Char) : Except IntegerError Int :=
  match text with
  | [] => .error .empty
  | ['+'] | ['-'] => .error .invalidDigit
  | '+' :: rest => (readDigits (Nat.pow 2 63) 0 rest).map Int.ofNat
  | '-' :: rest => (readDigits (Nat.pow 2 63 + 1) 0 rest).map fun n => -(n : Int)
  | _ => (readDigits (Nat.pow 2 63) 0 text).map Int.ofNat

-- The double nearest to `digits * 10 ^ exponent`. Exponents far beyond the range of doubles are not computed with.
def ofDecimal (negative : Bool) (digits : Nat) (exponent : Int) : Binary :=
  -- No double but zero lies below `10 ^ (-400)`, and none but infinity above `10 ^ 400`.
  let size : Int := (Nat.toDigits 10 digits).length
  if digits == 0 || exponent + size < -400 then .finite negative 0 (-1074)
  else if 400 < exponent + size then .infinite negative
  else if 0 ≤ exponent then Binary.nearest negative (digits * Nat.pow 10 exponent.toNat) 1
  else Binary.nearest negative digits (Nat.pow 10 (-exponent).toNat)

def digitRun (text : List Char) : List Nat × List Char :=
  ((text.takeWhile Char.isDigit).filterMap digit?, text.dropWhile Char.isDigit)

-- The exponent at the end of a decimal: none at all, or the letter E, an optional sign and digits to the end.
def readExponent? (text : List Char) : Option Int :=
  match text with
  | [] => some 0
  | c :: rest =>
    if c.toLower == 'e' then
      let (negative, rest) := match rest with
        | '-' :: rest => (true, rest)
        | '+' :: rest => (false, rest)
        | _ => (false, rest)
      match digitRun rest with
      | (d :: ds, []) =>
        let n : Int := ofDigits (d :: ds)
        some (if negative then -n else n)
      | _ => none
    else none

def readMagnitude? (negative : Bool) (text : List Char) : Option Binary :=
  match String.ofList (text.map Char.toLower) with
  | "inf" | "infinity" => some (.infinite negative)
  | "nan" => some .nan
  | _ =>
    let (whole, rest) := digitRun text
    let (fraction, rest) := match rest with
      | '.' :: rest => digitRun rest
      | _ => ([], rest)
    if whole.isEmpty && fraction.isEmpty then none
    else (readExponent? rest).map fun e =>
      ofDecimal negative (ofDigits (whole ++ fraction)) (e - fraction.length)

def readFloat? (text : List Char) : Option Float :=
  match text with
  | '-' :: rest => (readMagnitude? true rest).map Binary.toFloat
  | '+' :: rest => (readMagnitude? false rest).map Binary.toFloat
  | _ => (readMagnitude? false text).map Binary.toFloat

-- Why a text is no list of numbers and ranges. A range stops at the number after its end, and the largest number has
-- none.
inductive RangeError
  | number (error : IntegerError)
  | endOverflow
deriving DecidableEq, Repr

def RangeError.message : RangeError → String
  | .number error => error.message
  | .endOverflow => "attempt to add with overflow"

def wordBound : Nat := Nat.pow 2 64

-- The number after another one, in 64 bits. Arithmetic that is not checked goes on at zero after the largest number.
def next (checked : Bool) (n : Nat) : Except RangeError Nat :=
  if checked && n + 1 == wordBound then .error .endOverflow else .ok ((n + 1) % wordBound)

-- The numbers from one to another, the last one included.
def range (checked : Bool) (first last : Nat) : Except RangeError (List Nat) := do
  let stop ← next checked last
  return List.range' first (stop - first)

def readNumber (text : List Char) : Except RangeError Nat :=
  (readNat wordBound text).mapError .number

-- The numbers that a number stands for, or a range of two numbers with a hyphen between them.
def readRange (checked : Bool) (text : List Char) : Except RangeError (List Nat) :=
  match Text.cut? ['-'] text with
  | some (first, last) => do
    let first ← readNumber first
    let last ← readNumber last
    range checked first last
  | none => do return [← readNumber text]

-- The numbers of a list of numbers and ranges with commas between them, in ascending order. A number stands in it as
-- often as it is given.
def readRanges (checked : Bool) (text : List Char) : Except RangeError (List Nat) := do
  let ranges ← (Text.splitOn [','] text).mapM (readRange checked)
  return ranges.flatten.mergeSort

end Subplans.Number
