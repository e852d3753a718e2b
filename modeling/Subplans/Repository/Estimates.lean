import Subplans.Json.Reader
import Subplans.Json.Writer

/-!
Estimates by the identifiers of queries.
-/

namespace Subplans

abbrev EstimateTable := List (Nat × Float)

namespace EstimateTable

def set (id : Nat) (x : Float) : EstimateTable → EstimateTable
  | [] => [(id, x)]
  | (i, y) :: rest =>
    if id == i then (i, x) :: rest
    else if id < i then (id, x) :: (i, y) :: rest
    else (i, y) :: set id x rest

-- The table of some entries, of which the last for a query counts.
def ofEntries (entries : List (Nat × Float)) : EstimateTable :=
  entries.foldl (fun table (id, x) => set id x table) []

def toJson (t : EstimateTable) : Json :=
  Json.ofFields (t.map fun (id, x) => (toString id, Json.ofFloat x))

-- Reads an identifier as the name of a field. It is written as JSON writes numbers.
def id? (name : String) : Option Nat :=
  match Json.read? name with
  | some (.number lexeme) => if lexeme == name then Json.nat? (Nat.pow 2 64) (.number lexeme) else none
  | _ => none

def ofJson? : Json → Option EstimateTable
  | .object fields => do
    let entries ← fields.mapM fun (name, value) => do pure (← id? (← name), ← value.float?)
    pure (ofEntries entries)
  | _ => none

end EstimateTable

end Subplans
