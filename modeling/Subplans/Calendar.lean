import Subplans.Number.Reader

/-!
Dates and times of day, with their text.

Dates are those of the proleptic Gregorian calendar, within the years that are kept exactly. Reading
is lenient in the number of digits and in white space before numbers, writing is not.
-/

namespace Subplans

namespace Calendar

-- Years that are divisible by 4, the centuries only if by 400.
def isLeap (year : Int) : Bool :=
  year % 4 == 0 && (year % 100 != 0 || year % 400 == 0)

def daysIn (year : Int) (month : Nat) : Nat :=
  if month == 2 then (if isLeap year then 29 else 28)
  else if month == 4 || month == 6 || month == 9 || month == 11 then 30
  else 31

def isDay (year : Int) (month day : Nat) : Bool :=
  -262143 ≤ year && year ≤ 262142 && 1 ≤ month && month ≤ 12 && 1 ≤ day && day ≤ daysIn year month

-- There is such a time of day; a minute may have a leap second.
def isTime (hour minute second : Nat) : Bool :=
  hour < 24 && minute < 60 && second ≤ 60

end Calendar

structure Date where
  year : Int
  month : Nat
  day : Nat
  isDay : Calendar.isDay year month day
deriving DecidableEq, Repr

structure Timestamp where
  date : Date
  hour : Nat
  minute : Nat
  second : Nat
  isTime : Calendar.isTime hour minute second
deriving DecidableEq, Repr

namespace Calendar

-- Blanks and then a number of at most `width` digits.
def number? (width : Nat) (text : List Char) : Option (Nat × List Char) :=
  let text := Text.trimStart text
  let digits := (text.take width).takeWhile Char.isDigit
  if digits.isEmpty then none
  else some (Number.ofDigits (digits.filterMap Number.digit?), text.drop digits.length)

-- Blanks and then a year: with a sign of any number of digits, else of at most four.
def year? (text : List Char) : Option (Int × List Char) :=
  match Text.trimStart text with
  | '-' :: rest => (signed? rest).map fun (n, rest) => (-(n : Int), rest)
  | '+' :: rest => (signed? rest).map fun (n, rest) => ((n : Int), rest)
  | rest => (number? 4 rest).map fun (n, rest) => ((n : Int), rest)
where
  signed? (text : List Char) : Option (Nat × List Char) :=
    match text with
    | c :: _ => if c.isDigit then number? text.length text else none
    | [] => none

def literal? (c : Char) (text : List Char) : Option (List Char) :=
  match text with
  | d :: rest => if d == c then some rest else none
  | [] => none

def date? (text : List Char) : Option (Date × List Char) := do
  let (year, text) ← year? text
  let (month, text) ← number? 2 (← literal? '-' text)
  let (day, text) ← number? 2 (← literal? '-' text)
  if h : isDay year month day then some (⟨year, month, day, h⟩, text) else none

def padded (width n : Nat) : String :=
  let digits := toString n
  "".pushn '0' (width - digits.length) ++ digits

end Calendar

namespace Date

def ofText? (text : List Char) : Option Date :=
  match Calendar.date? text with
  | some (date, []) => some date
  | _ => none

-- Four digits of the year, with a sign for years before 0 and after 9999, and two each for month and day.
def text (d : Date) : String :=
  let sign := if d.year < 0 then "-" else if 9999 < d.year then "+" else ""
  sign ++ Calendar.padded 4 d.year.natAbs ++ "-" ++ Calendar.padded 2 d.month ++ "-" ++
    Calendar.padded 2 d.day

end Date

namespace Timestamp

-- The date and time of day a text denotes as a whole, with colons between the parts of the time and any white space
-- before it.
def ofText? (text : List Char) : Option Timestamp := do
  let (date, text) ← Calendar.date? text
  let (hour, text) ← Calendar.number? 2 text
  let (minute, text) ← Calendar.number? 2 (← Calendar.literal? ':' text)
  let (second, text) ← Calendar.number? 2 (← Calendar.literal? ':' text)
  if text.isEmpty then
    if h : Calendar.isTime hour minute second then some ⟨date, hour, minute, second, h⟩ else none
  else none

def text (t : Timestamp) : String :=
  t.date.text ++ " " ++ Calendar.padded 2 t.hour ++ ":" ++ Calendar.padded 2 t.minute ++ ":" ++
    Calendar.padded 2 t.second

end Timestamp

end Subplans
