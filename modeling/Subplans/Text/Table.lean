import Subplans.Text.Scan

/-!
Comma-separated tables.
-/

namespace Subplans.Text.Table

def isSpecial (c : Char) : Bool :=
  c == ',' || c == nameMark || c == '\n' || c == '\r'

def field (text : String) : String :=
  if text.toList.any isSpecial then String.ofList (nameMark :: double nameMark text.toList ++ [nameMark])
  else text

def row (fields : List String) : String :=
  ",".intercalate (fields.map field)

-- A table with names for its columns, which are left out if there are no rows.
def write (columns : List String) (rows : List (List String)) : String :=
  if rows.isEmpty then ""
  else String.join ((columns :: rows).map fun fields => row fields ++ "\n")

end Subplans.Text.Table
