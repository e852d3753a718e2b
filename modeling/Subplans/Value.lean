import Subplans.Calendar
import Subplans.Number.Layout

/-!
The values that columns are compared with, and their literals in SQL.
-/

namespace Subplans

inductive Value
  | null
  | integer (n : Int)
  | number (x : Float)
  | text (s : String)
  | date (d : Date)
  | timestamp (t : Timestamp)
deriving Repr

namespace Value

def isNumeric : Value → Bool
  | integer _ | number _ => true
  | _ => false

def quoted (s : String) : String :=
  String.ofList (Text.quoteMark :: Text.double Text.quoteMark s.toList ++ [Text.quoteMark])

def literal : Value → String
  | null => "NULL"
  | integer n => toString n
  | number x => Number.Layout.literal.write x
  | text s => quoted s
  | date d => quoted d.text
  | timestamp t => quoted t.text

end Value

end Subplans
