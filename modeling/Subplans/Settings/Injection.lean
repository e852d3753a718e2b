import Subplans.Json.Record
import Subplans.Json.Writer

/-!
How estimates are handed to the server.

The server has session variables that make it read estimates from files or log the parts of a query that it
asks estimates for. What the variables and files are called is a matter of settings.
-/

namespace Subplans

-- Names of the session variables for injection, and of the files in the server's data directory.
structure InjectionSettings where
  tablesEnabled : String := "ml_cardest_enabled"
  joinsEnabled : String := "ml_joinest_enabled"
  tablesFile : String := "ml_cardest_fname"
  joinsFile : String := "ml_joinest_fname"
  tableCounter : String := "query_no"
  joinCounter : String := "join_est_no"
  logsJoins : String := "print_sub_queries"
  logsTables : String := "print_single_tbl_queries"
  tableEstimates : String := "single_table_estimations.txt"
  joinEstimates : String := "multi_table_estimations.txt"
  tableLog : String := "single_table_subplan_order.txt"
  joinLog : String := "multi_table_subplan_order.txt"
deriving DecidableEq, Repr

namespace InjectionSettings

def assignment (name value : String) : String :=
  "SET " ++ name ++ " = " ++ value ++ ";"

def resetCounters (i : InjectionSettings) : List String :=
  [assignment i.tableCounter "0", assignment i.joinCounter "0"]

-- Statements that make the server read estimates from two files, those of single tables only if `tables`.
def injecting (i : InjectionSettings) (tableFile joinFile : String) (tables : Bool) : List String :=
  (if tables then [assignment i.tablesEnabled "TRUE"] else []) ++ [assignment i.joinsEnabled "TRUE"] ++
    i.resetCounters ++
    [assignment i.tablesFile ("'" ++ tableFile ++ "'"), assignment i.joinsFile ("'" ++ joinFile ++ "'")]

def logging (i : InjectionSettings) : List String :=
  [assignment i.logsJoins "TRUE", assignment i.logsTables "TRUE"] ++ i.resetCounters

-- Reads a record, in which every field may be left out.
def ofJson? (value : Json) : Option InjectionSettings := do
  let r ← value.record? ["cardest_enabled", "joinest_enabled", "cardest_fname", "joinest_fname", "query_no",
    "join_est_no", "print_sub_queries", "print_single_tbl_queries", "single_table_estimations",
    "multi_table_estimations", "single_table_subplan_order", "multi_table_subplan_order"]
  let d : InjectionSettings := {}
  let text := fun name default => r.defaulting? name default Json.string?
  pure {
    tablesEnabled := ← text "cardest_enabled" d.tablesEnabled
    joinsEnabled := ← text "joinest_enabled" d.joinsEnabled
    tablesFile := ← text "cardest_fname" d.tablesFile
    joinsFile := ← text "joinest_fname" d.joinsFile
    tableCounter := ← text "query_no" d.tableCounter
    joinCounter := ← text "join_est_no" d.joinCounter
    logsJoins := ← text "print_sub_queries" d.logsJoins
    logsTables := ← text "print_single_tbl_queries" d.logsTables
    tableEstimates := ← text "single_table_estimations" d.tableEstimates
    joinEstimates := ← text "multi_table_estimations" d.joinEstimates
    tableLog := ← text "single_table_subplan_order" d.tableLog
    joinLog := ← text "multi_table_subplan_order" d.joinLog
  }

def toJson (i : InjectionSettings) : Json :=
  Json.ofFields <| [
    ("cardest_enabled", i.tablesEnabled), ("joinest_enabled", i.joinsEnabled), ("cardest_fname", i.tablesFile),
    ("joinest_fname", i.joinsFile), ("query_no", i.tableCounter), ("join_est_no", i.joinCounter),
    ("print_sub_queries", i.logsJoins), ("print_single_tbl_queries", i.logsTables),
    ("single_table_estimations", i.tableEstimates), ("multi_table_estimations", i.joinEstimates),
    ("single_table_subplan_order", i.tableLog), ("multi_table_subplan_order", i.joinLog)].map
      fun (name, value) => (name, Json.ofString value)

end InjectionSettings

end Subplans
