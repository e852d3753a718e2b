import Subplans.Client.Request

/-!
The database behind a client program.
-/

namespace Subplans

-- How the client program is run; there is no outcome if it could not be started.
abbrev ClientRunner (m : Type → Type) : Type :=
  ClientRequest → m (Option ClientOutcome)

namespace Backend

variable {m : Type → Type} [Monad m]

def clientOutput (run : ClientRunner m) (c : ConnectionSettings) (settings : List String) (sql : String) :
    m (Except BackendError String) := do
  match ← run (.ofStatement c settings sql) with
  | none => return .error .unavailable
  | some outcome => return outcome.result

def readReport (printed : String) : Except BackendError Explain :=
  match Explain.ofText? printed with
  | some explain => .ok explain
  | none => .error .malformedReport

def readCount (printed : String) : Except BackendError Float :=
  match Number.readFloat? (Text.trim printed.toList) with
  | some x => .ok x
  | none => .error (.unexpectedOutput (Text.trimmed printed))

def readDirectory (printed : String) : Except BackendError String :=
  if (Text.trimmed printed).isEmpty then .error (.unexpectedOutput printed) else .ok (Text.trimmed printed)

def ofClient (run : ClientRunner m) (c : ConnectionSettings) : Backend m where
  explain sql settings := do
    return (← clientOutput run c settings ("EXPLAIN (FORMAT JSON) " ++ sql)).bind readReport
  explainAnalyze sql settings := do
    return (← clientOutput run c settings ("EXPLAIN (ANALYZE TRUE, FORMAT JSON) " ++ sql)).bind readReport
  count sql := do return (← clientOutput run c [] sql).bind readCount
  dataDirectory := do
    let sql := "SELECT setting FROM pg_settings WHERE name = 'data_directory';"
    return (← clientOutput run c [] sql).bind readDirectory

end Backend

end Subplans
