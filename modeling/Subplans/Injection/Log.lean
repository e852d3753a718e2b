import Subplans.Backend.Basic
import Subplans.Files.Basic
import Subplans.Injection.Correction
import Subplans.Json.Record
import Subplans.Query.Subquery

/-!
The logs of what the server asks estimates for.

While it plans a query the server writes a log of single tables and a log of joins, in the order in which it
wants their estimates. For a known query the logs hold aliases, one table or set of tables on a line; for SQL
text they are records with the conditions that belong to each.
-/

namespace Subplans

-- Why estimates cannot be handed to the server.
inductive InjectionError
  | unknownAlias (aliasName : String)
  | unknownTable (table : String)
  | unknownJoinType (name : String)
  -- A join refers to something that is not in the log before it.
  | unknownSubplan (id : Int)
  | inputCount (id : Int) (inputs : Nat)
  | countMismatch (mismatch : Correction.CountMismatch)
  | file
  | malformedLog
  | backend (error : BackendError)
deriving DecidableEq, Repr

def InjectionError.message : InjectionError → String
  | unknownAlias aliasName => "unknown alias " ++ aliasName ++ " in subplan log"
  | unknownTable table => "unknown table " ++ table ++ " in subplan log"
  | unknownJoinType name => "unknown join type: " ++ name
  | unknownSubplan id => "subplan " ++ toString id ++ " is referenced before it is logged"
  | inputCount id inputs => "join subplan " ++ toString id ++ " has " ++ toString inputs ++ " inputs"
  | countMismatch m => toString m.infos ++ " join infos for " ++ toString m.estimates ++ " join estimates"
  | file => "I/O error"
  | malformedLog => "invalid subplan log"
  | backend error => "backend failure: " ++ error.message

namespace OrderLog

def tableMark : List Char :=
  "\"table_alias\"".toList

def tablesMark : List Char :=
  "\"table_aliases\"".toList

def dropEnd (c : Char) (text : List Char) : List Char :=
  (text.reverse.dropWhile (· == c)).reverse

-- What stands between the first colon of a line and the second, without commas at its end.
def value (line : List Char) : List Char :=
  match Text.splitOn [':'] line with
  | _ :: value :: _ => dropEnd ',' (Text.trim value)
  | _ => []

def node (g : QueryGraph) (aliasName : String) : Except InjectionError Nat :=
  match g.realNode? aliasName with
  | some n => .ok n
  | none => .error (.unknownAlias aliasName)

-- The nodes that a line tells of; most lines tell of none.
def lineNodes (g : QueryGraph) (line : List Char) : Except InjectionError (Option (List Nat)) :=
  let line := Text.trimStart line
  if tablesMark.isPrefixOf line then
    match (Json.read? (String.ofList (value line))).bind (Json.list? Json.string?) with
    | none => .error .malformedLog
    | some aliases => (aliases.mapM (node g)).map some
  else if tableMark.isPrefixOf line then
    let aliasName := dropEnd Text.nameMark ((value line).dropWhile (· == Text.nameMark))
    (node g (String.ofList aliasName)).map fun n => some [n]
  else .ok none

def nodes (g : QueryGraph) (text : String) : Except InjectionError (List (List Nat)) := do
  let found ← (Text.splitOn ['\n'] text.toList).mapM (lineNodes g)
  return found.filterMap id

def queries (s : Schema) (g : QueryGraph) (text : String) : Except InjectionError (List QueryGraph) := do
  return (← nodes g text).map (g.subquery s)

end OrderLog

structure TableEntry where
  id : Int
  aliasName : String
  table : String
  predicates : List String
  rows : Float

structure InputEntry where
  id : Int
  rows : Float

structure JoinEntry where
  id : Int
  joinType : String
  rows : Float
  inputs : List InputEntry
  clauses : List String

def entryId? : Json → Option Int :=
  Json.integer? (-Int.pow 2 63) (Int.pow 2 63 - 1)

def TableEntry.ofJson? (value : Json) : Option TableEntry := do
  let r ← value.record? ["id", "table_alias", "table", "predicates", "rows"]
  pure {
    id := ← r.required? "id" entryId?
    aliasName := ← r.required? "table_alias" Json.string?
    table := ← r.required? "table" Json.string?
    predicates := ← r.defaulting? "predicates" [] (Json.list? Json.string?)
    rows := ← r.required? "rows" Json.float?
  }

def InputEntry.ofJson? (value : Json) : Option InputEntry := do
  let r ← value.record? ["id", "rows"]
  pure { id := ← r.required? "id" entryId?, rows := ← r.required? "rows" Json.float? }

def JoinEntry.ofJson? (value : Json) : Option JoinEntry := do
  let r ← value.record? ["id", "join_type", "rows", "children", "join_clauses"]
  pure {
    id := ← r.required? "id" entryId?
    joinType := ← r.required? "join_type" Json.string?
    rows := ← r.required? "rows" Json.float?
    inputs := ← r.required? "children" (Json.list? InputEntry.ofJson?)
    clauses := ← r.defaulting? "join_clauses" [] (Json.list? Json.string?)
  }

def logEntries? {α : Type} (read : Json → Option α) (text : String) : Option (List α) :=
  let body := OrderLog.dropEnd ',' (Text.trimEnd text.toList)
  (Json.read? (String.ofList ('[' :: body ++ [']']))).bind (Json.list? read)

end Subplans
